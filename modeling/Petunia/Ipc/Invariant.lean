import Petunia.Ipc.Effect

set_option autoImplicit false

/-!
# The layers of an end agree

* `OutPhase.frame`, `InPhase.frame`: a half that a step does not touch stays in its phase;
* **`Effect.valid`**: every step keeps an end valid.
-/

namespace Petunia.Ipc

open CTypes Lts

namespace End

variable {e e' : End}

/-- The sending half depends on its own fields and events only. -/
theorem OutPhase.frame (h : OutPhase e) (hd : e.state ≠ .done) (hs : e'.state = e.state)
    (hf : (e'.outpipe, e'.pipeOut, e'.sipcOut, e'.hdr, e'.sent) =
      (e.outpipe, e.pipeOut, e.sipcOut, e.hdr, e.sent))
    (hev : .sent ∈ e'.events ↔ .sent ∈ e.events)
    (hev' : .pipeOut ∈ e'.events ↔ .pipeOut ∈ e.events) : OutPhase e' := by
  simp only [Prod.mk.injEq] at hf
  obtain ⟨h1, h2, h3, h4, h5⟩ := hf
  cases h with
  | header hs' ho hsent hiff hno =>
    exact .header (hs.trans hs') (h1.trans ho) (h5.trans hsent) (by rw [hev, h4, hiff])
      (by rwa [hev'])
  | exchange hs' ho hsent hh hno hno' =>
    exact .exchange (by rwa [hs]) (h1.trans ho) (h5.trans hsent) (h4.trans hh) (by rwa [hev])
      (by rwa [hev'])
  | ready hs' hp hi hh hno hiff =>
    exact .ready (hs.trans hs') (h2.trans hp) (h3.trans hi) (h4.trans hh) (by rwa [hev])
      (by rw [hev', h1, hiff])
  | writing hs' ho hp hi hiff hno =>
    exact .writing (hs.trans hs') (h1.trans ho) (h2.trans hp) (h3.trans hi) (by rw [hev, h4, hiff])
      (by rwa [hev'])
  | done hs' => exact absurd hs' hd

/-- The receiving half depends on its own fields and events only. -/
theorem InPhase.frame (h : InPhase e) (hd : e.state ≠ .done) (hs : e'.state = e.state)
    (hf : (e'.inpipe, e'.pipeIn, e'.sipcIn, e'.buf, e'.want) =
      (e.inpipe, e.pipeIn, e.sipcIn, e.buf, e.want))
    (hev : .received ∈ e'.events ↔ .received ∈ e.events)
    (hev' : .pipeIn ∈ e'.events ↔ .pipeIn ∈ e.events) : InPhase e' := by
  simp only [Prod.mk.injEq] at hf
  obtain ⟨h1, h2, h3, h4, h5⟩ := hf
  cases h with
  | waiting hs' hi hw hno hno' =>
    exact .waiting (hs.trans hs') (h1.trans hi) (h5.trans hw) (by rwa [hev]) (by rwa [hev'])
  | header hs' hi hl hiff hno =>
    exact .header (hs.trans hs') (h1.trans hi) (by rwa [h4, h5]) (by rw [hev, h5, hiff])
      (by rwa [hev'])
  | exchanged hs' hi hw hno hno' =>
    exact .exchanged (hs.trans hs') (h1.trans hi) (h5.trans hw) (by rwa [hev]) (by rwa [hev'])
  | size hs' hi hp hc hl hiff hno =>
    exact .size (hs.trans hs') (h1.trans hi) (h2.trans hp) (h3.trans hc) (by rwa [h4, h5])
      (by rw [hev, h5, hiff]) (by rwa [hev'])
  | body hs' hi hp hc hiff hno =>
    exact .body (hs.trans hs') (h1.trans hi) (h2.trans hp) (h3.trans hc)
      (by rw [hev, h5, hiff]) (by rwa [hev'])
  | hasmsg hs' hp hc hw hno hiff =>
    exact .hasmsg (hs.trans hs') (h2.trans hp) (h3.trans hc) (h5.trans hw) (by rwa [hev])
      (by rw [hev', h1, hiff])
  | done hs' => exact absurd hs' hd

theorem receivedIf_queued (want : ℕ) : receivedIf want = [] ∨ receivedIf want = [.received] := by
  unfold receivedIf
  split_ifs
  · exact .inr rfl
  · exact .inl rfl

theorem queued_receivedIf {want : ℕ} (h : e.events = receivedIf want) : Queued e := by
  rcases receivedIf_queued want with h' | h' <;> simp [Queued, h, h']

theorem queued_pipeOut {want : ℕ} (h : e.events = .pipeOut :: receivedIf want) : Queued e := by
  rcases receivedIf_queued want with h' | h' <;> simp [Queued, h, h']

theorem queued_sentIf {hdr : List Bytes} (h : e.events = sentIf hdr) : Queued e := by
  unfold sentIf at h
  split_ifs at h <;> simp [Queued, h]

/-- Behind the first `NN_PIPE_OUT` there is nothing but `NN_USOCK_RECEIVED`. -/
theorem Valid.queue_pipeOut (hv : Valid e) {events : List Event}
    (h : e.events = .pipeOut :: events) : events = [] ∨ events = [.received] := by
  have hq := hv.queued
  rw [Queued, h] at hq
  simpa using hq

/-- Before the session starts the sending half has written its protocol header only. -/
theorem OutPhase.of_not_active (h : OutPhase e) (hs : e.state ≠ .active) (hd : e.state ≠ .done) :
    e.outpipe = false ∧ e.sent = [] ∧ .pipeOut ∉ e.events ∧ (e.state ≠ .sending → e.hdr = []) := by
  cases h with
  | header hs' ho hsent hiff hno => exact ⟨ho, hsent, hno, fun hn => absurd hs' hn⟩
  | exchange hs' ho hsent hh hno hno' => exact ⟨ho, hsent, hno', fun _ => hh⟩
  | ready hs' | writing hs' => exact absurd hs' hs
  | done hs' => exact absurd hs' hd

theorem InPhase.of_not_active (h : InPhase e) (hs : e.state ≠ .active) : e.inpipe = false := by
  cases h with
  | waiting hs' hi | header hs' hi | exchanged hs' hi | done hs' hi => exact hi
  | size hs' | body hs' | hasmsg hs' => exact absurd hs' hs

/-- A message that is there is complete. -/
theorem InPhase.want_of_hasmsg (h : InPhase e) (hs : e.state = .active) (hc : e.sipcIn = .hasmsg) :
    e.want = 0 := by
  cases h with
  | hasmsg hs' hp hc' hw => exact hw
  | waiting hs' | header hs' | exchanged hs' | done hs' => rw [hs] at hs'; cases hs'
  | size hs' hi' hp hc' | body hs' hi' hp hc' => rw [hc] at hc'; cases hc'

/-- While a buffer is being filled nothing else is going on in the receiving half. -/
theorem InPhase.of_want (h : InPhase e) (hw : e.want ≠ 0) :
    e.inpipe = false ∧ .pipeIn ∉ e.events := by
  cases h with
  | waiting hs hi hw' | exchanged hs hi hw' | hasmsg hs hp hc hw' => exact absurd hw' hw
  | header hs hi hl hiff hno => exact ⟨hi, hno⟩
  | size hs hi hp hc hl hiff hno => exact ⟨hi, hno⟩
  | body hs hi hp hc hiff hno => exact ⟨hi, hno⟩
  | done hs hi hnil => exact ⟨hi, by simp [hnil]⟩

/-- More of a buffer has been filled. -/
theorem InPhase.fill (h : InPhase e) (hd : e.state ≠ .done) (hw : e.want ≠ 0) {u : In}
    {incoming buf : Bytes} {want : ℕ} (hl : buf.length + want = e.buf.length + e.want) :
    InPhase { e with u, incoming, buf, want, events := receivedIf want } := by
  cases h with
  | waiting hs hi hw' | exchanged hs hi hw' | hasmsg hs hp hc hw' => exact absurd hw' hw
  | header hs hi hl' => exact .header hs hi (hl.trans hl') (by simp) (by simp)
  | size hs hi hp hc hl' => exact .size hs hi hp hc (hl.trans hl') (by simp) (by simp)
  | body hs hi hp hc => exact .body hs hi hp hc (by simp) (by simp)
  | done hs => exact absurd hs hd

/-- **A step keeps an end valid.** -/
theorem Effect.valid {a : Act} (hv : Valid e) (h : Effect e a e') : Valid e' := by
  cases h with
  | headerSent n hs hev hf =>
    obtain ⟨ho, hsent, -, -⟩ := hv.out.of_not_active (by simp [hs]) (by simp [hs])
    have hi := hv.inp.of_not_active (by simp [hs])
    have hh : e.hdr = [] := by
      cases hv.out with
      | header hs' ho' hsent' hiff => exact hiff.mp (by simp [hev])
      | exchange hs' => rw [hs] at hs'; rcases hs' with hs' | hs' <;> cases hs'
      | ready hs' | writing hs' | done hs' => rw [hs] at hs'; cases hs'
    exact ⟨.exchange (.inl rfl) ho hsent hh (by simp) (by simp),
      .header rfl hi hf.length (by simp) (by simp), queued_receivedIf rfl, hv.ne_nil⟩
  | headerRead n hs hev hl hw =>
    obtain ⟨ho, hsent, -, hh⟩ := hv.out.of_not_active (by simp [hs]) (by simp [hs])
    have hi := hv.inp.of_not_active (by simp [hs])
    by_cases hacc : accepts e.socktype e.buf
    · rw [if_pos hacc]
      exact ⟨.exchange (.inr rfl) ho hsent (hh (by simp [hs])) (by simp) (by simp),
        .exchanged rfl hi hw (by simp) (by simp), by simp [Queued], hv.ne_nil⟩
    · rw [if_neg hacc]
      exact ⟨.done rfl ho rfl, .done rfl hi rfl, by simp [Queued], hv.ne_nil⟩
  | started n hs hev hf =>
    obtain ⟨ho, hsent, -, hh⟩ := hv.out.of_not_active (by simp [hs]) (by simp [hs])
    have hi := hv.inp.of_not_active (by simp [hs])
    exact ⟨.ready rfl rfl rfl (hh (by simp [hs])) (by simp) (by simp [ho]),
      .size rfl hi rfl rfl hf.length (by simp) (by simp), queued_pipeOut rfl, hv.ne_nil⟩
  | written n hs hev =>
    have hd : e.state ≠ .done := by simp [hs]
    refine ⟨?_, hv.inp.frame hd rfl rfl (by simp [hev]) (by simp [hev]), by simp [Queued],
      hv.ne_nil⟩
    cases hv.out with
    | writing hs' ho hp hi hiff =>
      exact .ready hs rfl rfl (hiff.mp (by simp [hev])) (by simp) (by simp [ho])
    | ready hs' hp hi hh hno => exact absurd (by simp [hev]) hno
    | header hs' | done hs' => rw [hs] at hs'; cases hs'
    | exchange hs' => rw [hs] at hs'; rcases hs' with hs' | hs' <;> cases hs'
  | outReady n hs hev ho =>
    have hd : e.state ≠ .done := by simp [hs]
    have hrest := hv.queue_pipeOut hev
    refine ⟨?_, hv.inp.frame hd rfl rfl (by simp [hev]) (by simp [hev]), ?_, hv.ne_nil⟩
    · cases hv.out with
      | ready hs' hp hi hh =>
        exact .ready hs hp hi hh (by rcases hrest with h | h <;> simp [h])
          (by rcases hrest with h | h <;> simp [h])
      | header hs' ho' hsent hiff hno | writing hs' ho' hp hi hiff hno =>
        exact absurd (by simp [hev]) hno
      | exchange hs' ho' hsent hh hno hno' => exact absurd (by simp [hev]) hno'
      | done hs' => exact absurd hs' hd
    · rcases hrest with h | h <;> simp [Queued, h]
  | tooLarge n hs hev hc hl hsize =>
    exact ⟨.done rfl rfl rfl, .done rfl rfl rfl, by simp [Queued], hv.ne_nil⟩
  | empty n hs hev hc hl hsize =>
    obtain ⟨hw, hi, -⟩ := hv.of_received (by simp [hev])
    exact ⟨hv.out.frame (by simp [hs]) rfl rfl (by simp [hev]) (by simp [hev]),
      .hasmsg hs rfl rfl hw (by simp) (by simp [hi]), by simp [Queued], hv.ne_nil⟩
  | bodyAwaited n hs hev hc hl hsize hf =>
    obtain ⟨hw, hi, ⟨hs', -⟩ | ⟨-, hp, -⟩⟩ := hv.of_received (by simp [hev])
    · rw [hs] at hs'
      cases hs'
    · exact ⟨hv.out.frame (by simp [hs]) rfl rfl (by simp [hev]) (by simp [hev]),
        .body hs hi hp rfl (by simp) (by simp), queued_receivedIf rfl, hv.ne_nil⟩
  | bodyRead n hs hev hc hw =>
    obtain ⟨-, hi, -⟩ := hv.of_received (by simp [hev])
    exact ⟨hv.out.frame (by simp [hs]) rfl rfl (by simp [hev]) (by simp [hev]),
      .hasmsg hs rfl rfl hw (by simp) (by simp [hi]), by simp [Queued], hv.ne_nil⟩
  | inReady n hs hev hi hc =>
    refine ⟨hv.out.frame (by simp [hs]) rfl rfl (by simp [hev]) (by simp [hev]), ?_,
      by simp [Queued], hv.ne_nil⟩
    cases hv.inp with
    | hasmsg hs' hp hc' hw => exact .hasmsg hs hp hc hw (by simp) (by simp)
    | waiting hs' hi' hw hno hno' | exchanged hs' hi' hw hno hno' => exact absurd (by simp [hev]) hno'
    | header hs' hi' hl hiff hno => exact absurd (by simp [hev]) hno
    | size hs' hi' hp hc' hl hiff hno => exact absurd (by simp [hev]) hno
    | body hs' hi' hp hc' hiff hno => exact absurd (by simp [hev]) hno
    | done hs' => rw [hs] at hs'; cases hs'
  | fdOut n hs hev hh hw =>
    have hd : e.state ≠ .done := by rcases hs with hs | hs <;> simp [hs]
    refine ⟨?_, hv.inp.frame hd rfl rfl (by simp [hev]) (by simp [hev]), queued_sentIf rfl,
      hw.ne_nil⟩
    cases hv.out with
    | header hs' ho hsent => exact .header hs' ho hsent (by simp) (by simp)
    | writing hs' ho hp hi => exact .writing hs' ho hp hi (by simp) (by simp)
    | exchange hs' ho hsent hh' | ready hs' hp hi hh' => exact absurd hh' hh
    | done hs' => exact absurd hs' hd
  | fdIn n hs hev hwant hf =>
    exact ⟨hv.out.frame hs rfl rfl (by simp [hev]) (by simp [hev]),
      hv.inp.fill hs hwant hf.length, queued_receivedIf rfl, hv.ne_nil⟩
  | send size_lt n hs hev ho hh hb hne =>
    exact ⟨.writing hs rfl rfl rfl (by simp) (by simp),
      hv.inp.frame (by simp [hs]) rfl rfl (by simp [hev]) (by simp [hev]), queued_sentIf rfl, hne⟩
  | recv n hs hev hi hc hf =>
    exact ⟨hv.out.frame (by simp [hs]) rfl rfl (by simp [hev]) (by simp [hev]),
      .size hs rfl rfl rfl hf.length (by simp) (by simp), queued_receivedIf rfl, hv.ne_nil⟩

/-- So does the end of its session. -/
theorem Valid.close (hv : Valid e) (hev : e.events = []) : e.close.Valid :=
  ⟨.done rfl rfl hev, .done rfl rfl hev, hv.queued, hv.ne_nil⟩

/-- Only a header exchange whose timer stops survives what ends a session. -/
theorem fail_eq {f : Ending} (h : e.fail f = some e') : e' = e ∨ e' = e.close := by
  cases f with
  | timeout =>
    simp only [fail] at h
    split_ifs at h
    exact .inr (Option.some.inj h).symm
  | error =>
    simp only [fail] at h
    split at h
    · exact .inl (Option.some.inj h).symm
    · cases h
    · exact .inr (Option.some.inj h).symm
  | close => exact .inr (Option.some.inj h).symm

end End

end Petunia.Ipc
