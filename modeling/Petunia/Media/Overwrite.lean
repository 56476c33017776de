import Petunia.Default.Latest
import Petunia.Inprocess.World

set_option autoImplicit false

/-!
# One batch over two media

The same calls of `SendMessage` and `UpdateMessage`, all before one `SendMessages`, and what the peer
then dispatches. The SQLite medium writes an overwriting message in place of the earlier ones of its
type; the in-process medium exchanges queues and does not look at the flag.

* `EnqueueCall`: the calls; `World.dispatches`, `Link.dispatches`: what the peer dispatches of a batch;
* `Link.dispatches_eq`: over the SQLite medium the batch is a sequence of upserts;
* `World.dispatches_eq`: in process it is the sequence of the messages;
* **`dispatches_eq_iff`**: the two are the same if and only if no overwriting message comes behind one
  of its type, and SQLite takes every message (`dispatches_differ`: two updates of one type).
-/

namespace Petunia

open CTypes Lts Sql KeyedLog

/-- A call on the sending endpoint. -/
inductive EnqueueCall
  | sendMessage (message : Message)
  | updateMessage (message : Message)

/-- What the call pushes on the outbox. -/
def EnqueueCall.message : EnqueueCall → Message
  | .sendMessage m => m
  | .updateMessage m => m.setOverwriteMode true

/-! ## The SQLite medium -/

/-- SQLite's length limit admits the type, the data and the whole row. -/
def Message.Fits (lim : Limits) (m : Message) : Prop :=
  m.getType.bytes.length ≤ lim.length ∧ m.getDataSize ≤ lim.length ∧
    lim.rowSize m.getType m.getDataSize m.getData ≤ lim.length

instance (lim : Limits) (m : Message) : Decidable (m.Fits lim) := inferInstanceAs (Decidable (_ ∧ _))

/-- What a receiver can observe of the rows. -/
def tableViews (t : MessageTable) : List (CString × Bytes) :=
  t.rows.map fun r => (readRow r.val).val.view

/-- The row that is bound for data of fewer than `2 ^ 31` bytes. -/
theorem row_of_bindMessage {lim : Limits} {m : Message} {row : MessageRow}
    (hm : m.getDataSize < 2 ^ 31) (h : bindMessage lim m = some row) :
    row.type = m.getType ∧ row.size = m.getDataSize ∧ row.blobMessage.bytes = m.getData := by
  obtain ⟨ht, hs, hb⟩ := bindMessage_eq_some h
  rw [m.getDataSize_eq] at hb hm
  exact ⟨ht, hs, (bytes_eq_iff hb).mpr hm⟩

/-- SQLite takes exactly the messages that fit. -/
theorem isSome_write_iff (lim : Limits) {t : MessageTable} {m : Tagged Message}
    (hm : m.val.getDataSize < 2 ^ 31) :
    (writeSendingMessage lim t m).isSome ↔ m.val.Fits lim := by
  rw [isSome_writeSendingMessage_iff]
  have hc := cInt_of_lt hm
  constructor
  · rintro ⟨row, hrow, hfit⟩
    obtain ⟨ht, hs, hb⟩ := row_of_bindMessage hm hrow
    rw [MessageRow.Fits, ht, hs, hb] at hfit
    refine ⟨?_, ?_, hfit⟩
    · by_contra hn
      simp [bindMessage, bindText, hn] at hrow
    · by_contra hn
      have hn' : ¬ (m.val.getDataSize : ℤ) ≤ lim.length := by exact_mod_cast hn
      simp [bindMessage, bindBlob, hc, hn'] at hrow
  · rintro ⟨ht, hd, hfit⟩
    obtain ⟨row, hrow⟩ : ∃ row, bindMessage lim m.val = some row :=
      exists_bindMessage ht (by omega) (by omega)
    obtain ⟨ht', hs', hb'⟩ := row_of_bindMessage hm hrow
    exact ⟨row, hrow, by rwa [MessageRow.Fits, ht', hs', hb']⟩

theorem mem_tableViews_fst {t : MessageTable} {k : CString} :
    (∃ p ∈ tableViews t, p.1 = k) ↔ ∃ r ∈ t.rows, r.val.val.type = k := by
  have hfst : ∀ r : Row (Tagged MessageRow), (readRow r.val).val.view.1 = r.val.val.type :=
    fun r => getType_createMessageFromRow r.val.val
  constructor
  · rintro ⟨p, hp, rfl⟩
    obtain ⟨r, hr, rfl⟩ := List.mem_map.mp hp
    exact ⟨r, hr, (hfst r).symm⟩
  · rintro ⟨r, hr, rfl⟩
    exact ⟨_, List.mem_map_of_mem hr, hfst r⟩

/-- **A written message is an upsert.** -/
theorem tableViews_writeSendingMessage {lim : Limits} {t t' : MessageTable} {m : Tagged Message}
    (hm : m.val.getDataSize < 2 ^ 31) (h : writeSendingMessage lim t m = some t') :
    tableViews t' = upsert (tableViews t) (m.val.overwrite, m.val.view) := by
  obtain ⟨row, hrow, hw⟩ := writeSendingMessage_cases h
  have hview : (readRow ⟨m.serial, row⟩).val.view = m.val.view :=
    (view_createMessageFromRow hrow).mpr hm
  have htype : row.type = m.val.getType := (bindMessage_eq_some hrow).1
  rcases hw with ⟨ho, hex, rfl⟩ | ⟨hfresh, rfl⟩
  · rw [htype] at hex
    rw [upsert, if_pos ⟨ho, mem_tableViews_fst.mpr hex⟩]
    simp only [tableViews, updateMessageStmt, Table.rows_update, List.map_map]
    refine List.map_congr_left fun r _ => ?_
    show (readRow (Table.Row.set (hasType row.type) (setBlob m.serial row) r).val).val.view =
      assign m.val.getType m.val.getData (readRow r.val).val.view
    rw [readRow_set, Link.view_overwriteBy, (Prod.mk.inj hview).1, (Prod.mk.inj hview).2]
  · rw [upsert_of_fresh fun ho p hp hk => ?_]
    · simp only [tableViews, insertMessageStmt, Table.rows_insert, List.map_append,
        List.map_singleton, hview]
    · obtain ⟨r, hr, hrt⟩ := mem_tableViews_fst.mp ⟨p, hp, hk⟩
      exact hfresh ho r hr (hrt.trans htype.symm)

/-- **A batch is a sequence of upserts.** -/
theorem tableViews_exec {lim : Limits} {ms : List (Tagged Message)}
    (hms : ∀ m ∈ ms, m.val.getDataSize < 2 ^ 31) {t t' : MessageTable}
    (h : exec (writeSendingMessage lim) t ms = some t') :
    tableViews t' = (ms.map fun m => (m.val.overwrite, m.val.view)).foldl upsert (tableViews t) := by
  induction ms generalizing t with
  | nil =>
    cases h
    rfl
  | cons m ms ih =>
    obtain ⟨u, hu, h⟩ := exec_cons_eq_some.mp h
    have hm := hms m List.mem_cons_self
    rw [ih (fun x hx => hms x (List.mem_cons_of_mem m hx)) h, tableViews_writeSendingMessage hm hu]
    rfl

/-- A transaction is committed if SQLite takes all its messages. -/
theorem isSome_exec_iff (lim : Limits) {ms : List (Tagged Message)}
    (hms : ∀ m ∈ ms, m.val.getDataSize < 2 ^ 31) (t : MessageTable) :
    (exec (writeSendingMessage lim) t ms).isSome ↔ ∀ m ∈ ms, m.val.Fits lim := by
  induction ms generalizing t with
  | nil => simp
  | cons m ms ih =>
    have hwrite := isSome_write_iff lim (t := t) (hms m List.mem_cons_self)
    rw [exec_cons, List.forall_mem_cons, ← hwrite]
    cases writeSendingMessage lim t m with
    | none => simp
    | some u =>
      simp only [Option.bind_some, ih (fun x hx => hms x (List.mem_cons_of_mem m hx)),
        Option.isSome_some, true_and]

namespace Link

/-- `ReceiveMessages` with nothing between its two halves. -/
def receiveMessages (lim : Limits) (s : Link) : Option Link :=
  (step lim s .scan).bind fun s =>
    if s.reference.isSome then step lim s .deleteOldMessages else some s

/-- What the receiver dispatches of a batch: the messages that `ReceiveMessages` has pushed to the
inbox, which `Distribute` then pops. -/
def dispatches (lim : Limits) (s : Link) (ms : List Message) : Option (List (CString × Bytes)) :=
  (exec (step lim) s (ms.map .push ++ [.sendMessages])).bind fun s₁ =>
    (receiveMessages lim s₁).map fun s₂ =>
      (s₂.inbox.drop s.inbox.length).map fun m => m.val.view

/-- The outbox and the table are empty, and the receiver is between two calls. -/
def Idle (s : Link) : Prop := s.outbox = [] ∧ s.table = .empty ∧ s.reference = none

/-- The messages with the numbers of their pushes. -/
def tag (n : ℕ) : List Message → List (Tagged Message)
  | [] => []
  | m :: ms => ⟨n, m⟩ :: tag (n + 1) ms

theorem map_tag {γ : Type*} (f : Message → γ) (n : ℕ) (ms : List Message) :
    (tag n ms).map (fun m => f m.val) = ms.map f := by
  induction ms generalizing n with
  | nil => rfl
  | cons m ms ih => rw [tag, List.map_cons, List.map_cons, ih]

theorem forall_mem_tag {P : Message → Prop} {n : ℕ} {ms : List Message} :
    (∀ m ∈ tag n ms, P m.val) ↔ ∀ m ∈ ms, P m := by
  induction ms generalizing n with
  | nil => simp [tag]
  | cons m ms ih => rw [tag, List.forall_mem_cons, List.forall_mem_cons, ih]

theorem exec_push (lim : Limits) (ms : List Message) (s : Link) :
    exec (step lim) s (ms.map .push) = some { s with
      outbox := s.outbox ++ tag s.pushed.length ms
      pushed := s.pushed ++ tag s.pushed.length ms } := by
  induction ms generalizing s with
  | nil => simp [tag]
  | cons m ms ih =>
    rw [List.map_cons, exec_cons, step, Option.bind_some, ih]
    simp [tag]

/-- A receiver that is between two calls gets all rows. -/
theorem inbox_receiveMessages (lim : Limits) {s : Link} (hs : s.reference = none) :
    ∃ s', receiveMessages lim s = some s' ∧
      s'.inbox = s.inbox ++ s.table.rows.map fun r => readRow r.val := by
  have h1 : step lim s .scan = some { s with
      inbox := s.inbox ++ s.table.rows.map fun r => readRow r.val
      reference := if 0 < s.table.lastId then some s.table.lastId else none } := by
    simp only [step, hs, scan_eq]
  rw [receiveMessages, h1, Option.bind_some]
  by_cases hid : 0 < s.table.lastId
  · simp [hid, step]
  · simp [hid]

/-- **A batch over the SQLite medium**: what the transaction has written is dispatched. -/
theorem dispatches_eq {lim : Limits} {s : Link} (hs : s.Idle) (ms : List Message) :
    dispatches lim s ms =
      (exec (writeSendingMessage lim) .empty (tag s.pushed.length ms)).map tableViews := by
  obtain ⟨ho, ht, hr⟩ := hs
  rw [dispatches, exec_append, exec_push, Option.bind_some, exec_cons, step_sendMessages_eq, ho, ht,
    List.nil_append]
  cases exec (writeSendingMessage lim) .empty (tag s.pushed.length ms) with
  | none => rfl
  | some t =>
    obtain ⟨s', hs', hi⟩ := inbox_receiveMessages lim
      (s := { s with outbox := [], table := t, pushed := s.pushed ++ tag s.pushed.length ms }) hr
    rw [Option.map_some, Option.bind_some, exec_nil, Option.bind_some, hs', Option.map_some,
      Option.map_some, hi, List.drop_left, List.map_map]
    rfl

/-- A batch is dispatched if SQLite takes all its messages. -/
theorem dispatches_eq_some_iff {lim : Limits} {s : Link} (hs : s.Idle) {ms : List Message}
    (hms : ∀ m ∈ ms, m.getDataSize < 2 ^ 31) (vs : List (CString × Bytes)) :
    dispatches lim s ms = some vs ↔ (∀ m ∈ ms, m.Fits lim) ∧
      (ms.map fun m => (m.overwrite, m.view)).foldl upsert [] = vs := by
  have htag : ∀ m ∈ tag s.pushed.length ms, m.val.getDataSize < 2 ^ 31 := forall_mem_tag.mpr hms
  have hfits := (isSome_exec_iff lim htag .empty).trans forall_mem_tag
  rw [dispatches_eq hs, ← hfits]
  cases hexec : exec (writeSendingMessage lim) .empty (tag s.pushed.length ms) with
  | none => simp
  | some t =>
    have hview := tableViews_exec htag hexec
    rw [map_tag fun m => (m.overwrite, m.view)] at hview
    simp only [Option.map_some, Option.some.injEq, Option.isSome_some, true_and, hview]
    rfl

end Link

/-! ## The in-process medium -/

namespace Inprocess.World

/-- What the endpoint `j` dispatches of a batch that is pushed on the endpoint `i`. -/
def dispatches (w : World Message) (i j : ℕ) (ms : List Message) :
    Option (List (CString × Bytes)) :=
  w.endpoints[j]?.bind fun o =>
    (exec step w (ms.map (.sendMessage i) ++
      [.sendMessages i, .receiveMessages j, .distribute j])).bind fun w' =>
    w'.endpoints[j]?.map fun o' => (o'.dispatched.drop o.dispatched.length).map fun m => m.message.view

/-- The endpoints are a pair on one channel, the outbox, the queue between them and the inbox are
empty. -/
structure Idle (w : World Message) (i j : ℕ) (e o : Endpoint (Entry Message)) : Prop where
  sender : w.endpoints[i]? = some e
  receiver : w.endpoints[j]? = some o
  channel : o.channel = e.channel
  direction : e.sends = o.receives
  outbox : e.outbox = []
  queue : (w.maps.get e.sends).lookup e.channel = some []
  inbox : o.inbox = []

/-- The messages with the numbers of their pushes. -/
def entries (i : ℕ) : ℕ → List Message → List (Entry Message)
  | _, [] => []
  | n, m :: ms => ⟨i, n, m⟩ :: entries i (n + 1) ms

theorem map_entries {γ : Type*} (f : Message → γ) (i n : ℕ) (ms : List Message) :
    (entries i n ms).map (fun m => f m.message) = ms.map f := by
  induction ms generalizing n with
  | nil => rfl
  | cons m ms ih => rw [entries, List.map_cons, List.map_cons, ih]

theorem exec_sendMessage {i : ℕ} (ms : List Message) {w : World Message}
    {e : Endpoint (Entry Message)} (he : w.endpoints[i]? = some e) :
    exec step w (ms.map (.sendMessage i)) = some { w with
      endpoints := w.endpoints.set i { e with outbox := e.outbox ++ entries i w.pushed.length ms }
      pushed := w.pushed ++ entries i w.pushed.length ms } := by
  have hlt : i < w.endpoints.length := (List.getElem?_eq_some_iff.mp he).1
  induction ms generalizing w e with
  | nil =>
    have hset : w.endpoints.set i e = w.endpoints := by
      rw [← (List.getElem?_eq_some_iff.mp he).2, List.set_getElem_self]
    simp [entries, hset]
  | cons m ms ih =>
    let e' : Endpoint (Entry Message) := { e with outbox := e.outbox ++ [⟨i, w.pushed.length, m⟩] }
    have h1 : w.step (.sendMessage i m) = some { w with
        endpoints := w.endpoints.set i e'
        pushed := w.pushed ++ [⟨i, w.pushed.length, m⟩] } := by
      simp [step, sendMessage, he, e']
    rw [List.map_cons, exec_cons, h1, Option.bind_some, ih (e := e') (by simp [hlt]) (by simpa)]
    simp [entries, e']

/-- The sender leaves its outbox in the empty queue. -/
theorem exists_sent {w : World Message} {i : ℕ} {e : Endpoint (Entry Message)}
    (he : w.endpoints[i]? = some e) (hq : (w.maps.get e.sends).lookup e.channel = some []) :
    ∃ w' e', w.step (.sendMessages i) = some w' ∧ w'.endpoints = w.endpoints.set i e' ∧
      (w'.maps.get e.sends).lookup e.channel = some e.outbox := by
  by_cases ho : e.outbox = []
  · refine ⟨_, _, by simp [step, sendMessages, Inprocess.sendMessages, he, ho]; rfl, rfl, ?_⟩
    rw [Maps.get_set_self, hq, ho]
  · refine ⟨_, _, by simp [step, sendMessages, Inprocess.sendMessages, swap, he, ho, hq]; rfl, rfl,
      ?_⟩
    rw [Maps.get_set_self, AList.lookup_insert]

/-- **A batch in process**: every message is dispatched, in order. -/
theorem dispatches_eq {w : World Message} {i j : ℕ} {e o : Endpoint (Entry Message)}
    (hw : w.Idle i j e o) (ms : List Message) : w.dispatches i j ms = some (ms.map Message.view) := by
  have hij : i ≠ j := by
    rintro rfl
    have heo : e = o := Option.some.inj (hw.sender.symm.trans hw.receiver)
    have hd := hw.direction
    rw [← heo, Endpoint.sends, Endpoint.receives, sendMessagesMap, receiveMessagesMap] at hd
    split_ifs at hd
  have hlt : i < w.endpoints.length := (List.getElem?_eq_some_iff.mp hw.sender).1
  let es := entries i w.pushed.length ms
  let e₁ : Endpoint (Entry Message) := { e with outbox := e.outbox ++ es }
  obtain ⟨w₂, e₂, h2, hends₂, hq₂⟩ := exists_sent (w := { w with
    endpoints := w.endpoints.set i e₁, pushed := w.pushed ++ es }) (i := i) (e := e₁)
    (by simp [hlt]) hw.queue
  have ho₂ : w₂.endpoints[j]? = some o := by
    rw [hends₂]
    simpa [List.getElem?_set_ne hij] using hw.receiver
  have hq : (w₂.maps.get o.receives).lookup o.channel = some es := by
    have hes : e₁.outbox = es := by
      show e.outbox ++ es = es
      rw [hw.outbox, List.nil_append]
    rw [← hw.direction, hw.channel, ← hes]
    exact hq₂
  obtain ⟨w₃, h3, o', hends₃, -, -, hdisp⟩ := exec_receive ho₂ hq (.inr hw.inbox)
  have hj : j < w₂.endpoints.length := (List.getElem?_eq_some_iff.mp ho₂).1
  have hrun : exec step w (ms.map (.sendMessage i) ++
      [.sendMessages i, .receiveMessages j, .distribute j]) = some w₃ :=
    exec_trans (exec_sendMessage ms hw.sender) (by rw [exec_cons, h2]; exact h3)
  have ho' : w₃.endpoints[j]? = some o' := by
    rw [hends₃, List.getElem?_set_self hj]
  rw [dispatches, hw.receiver, Option.bind_some, hrun, Option.bind_some, ho', Option.map_some, hdisp,
    List.drop_left]
  exact congrArg some (map_entries Message.view i _ ms)

end Inprocess.World

/-! ## Both media -/

/-- No overwriting message comes behind one of its type. -/
def NothingOverwritten (ms : List Message) : Prop :=
  ms.Pairwise fun m m' => m'.getOverwriteMode = true → m.getType ≠ m'.getType

instance : DecidablePred NothingOverwritten := fun ms =>
  inferInstanceAs (Decidable (ms.Pairwise fun m m' =>
    m'.getOverwriteMode = true → m.getType ≠ m'.getType))

theorem foldl_upsert_view_iff (ms : List Message) :
    (ms.map fun m => (m.overwrite, m.view)).foldl upsert [] = ms.map Message.view ↔
      NothingOverwritten ms := by
  have hsnd : (ms.map fun m => (m.overwrite, m.view)).map Prod.snd = ms.map Message.view := by
    rw [List.map_map]
    rfl
  have h := foldl_upsert_eq_iff (ms.map fun m => (m.overwrite, m.view)) []
  rw [List.nil_append, hsnd, List.pairwise_map] at h
  refine h.trans (and_iff_right fun m _ _ p hp => ?_)
  cases hp

/-- **When a batch means the same on both media.** For any idle pair of endpoints over each medium
and any sequence of calls whose messages have data of fewer than `2 ^ 30` bytes: the peer dispatches
the same types and data in the same order if and only if no overwriting message comes behind a
message of its type, and SQLite's length limit admits the type, the data and the row of every
message. -/
theorem dispatches_eq_iff {lim : Limits} {s : Link} (hs : s.Idle) {w : Inprocess.World Message} {i j : ℕ}
    {e o : Inprocess.Endpoint (Inprocess.Entry Message)} (hw : w.Idle i j e o)
    {calls : List EnqueueCall}
    (hdata : ∀ c ∈ calls, c.message.getData ≠ [] ∧ c.message.getDataSize < 2 ^ 30) :
    s.dispatches lim (calls.map EnqueueCall.message) =
        w.dispatches i j (calls.map EnqueueCall.message) ↔
      (∀ c ∈ calls, c.message.Fits lim) ∧
        NothingOverwritten (calls.map EnqueueCall.message) := by
  have hms : ∀ m ∈ calls.map EnqueueCall.message, m.getDataSize < 2 ^ 31 := by
    rw [List.forall_mem_map]
    intro c hc
    have := (hdata c hc).2
    omega
  rw [Inprocess.World.dispatches_eq hw, Link.dispatches_eq_some_iff hs hms, List.forall_mem_map,
    foldl_upsert_view_iff]

/-- An update, and then a plain message of the same type and an update of another. -/
theorem dispatches_eq_iff_three : ∃ w : Inprocess.World Message,
    exec Inprocess.World.step .init [.construct [97] .server, .construct [97] .client] = some w ∧
    Link.init.dispatches .default ([.updateMessage (.new [116] [1]),
        .sendMessage (.new [116] [2]), .updateMessage (.new [117] [3])].map EnqueueCall.message) =
      w.dispatches 0 1 ([.updateMessage (.new [116] [1]), .sendMessage (.new [116] [2]),
        .updateMessage (.new [117] [3])].map EnqueueCall.message) := by
  have key : ∀ w : Inprocess.World Message,
      exec Inprocess.World.step .init [.construct [97] .server, .construct [97] .client] = some w →
      w.Idle 0 1 ⟨[97], .server, by decide, [], [], []⟩ ⟨[97], .client, by decide, [], [], []⟩ := by
    intro w h
    cases h
    exact ⟨rfl, rfl, rfl, rfl, rfl, rfl, rfl⟩
  exact ⟨_, rfl, (dispatches_eq_iff ⟨rfl, rfl, rfl⟩ (key _ rfl) (by decide)).mpr (by decide)⟩

/-- **A batch that differs.** Of two updates of one type the SQLite medium delivers the second, the
in-process medium both. -/
theorem dispatches_differ : ∃ w : Inprocess.World Message,
    exec Inprocess.World.step .init [.construct [97] .server, .construct [97] .client] = some w ∧
    Link.init.dispatches .default ([.updateMessage (.new [116] [1]),
        .updateMessage (.new [116] [2])].map EnqueueCall.message) = some [(cStr [116], [2])] ∧
    w.dispatches 0 1 ([.updateMessage (.new [116] [1]),
        .updateMessage (.new [116] [2])].map EnqueueCall.message) =
      some [(cStr [116], [1]), (cStr [116], [2])] :=
  ⟨_, rfl, by decide +kernel, rfl⟩

end Petunia
