import Petunia.Default.Folder
import Petunia.Inprocess.Session

set_option autoImplicit false

/-!
# When `Auto` completes a pair

An `Auto` endpoint looks for something that outlives endpoints: an entry of `s_to_server_messages`,
or the table `to_client` in the file of the channel. Whether this tells it who is there depends on
what has happened on the channel before.

* `Census`, `Census.Completes`: the endpoints of a medium that live, and the role that a new one
  should have among them;
* `Session.mapsKnown_step`: the map has the channels on which an endpoint was ever constructed;
* `Session.autoCompletes_iff`, `Folder.autoCompletes_iff`, **`auto_completes_pair_iff`**: when an
  `Auto` endpoint gets that role (`auto_joins_client`: two clients).
-/

namespace Petunia

open CTypes Lts Queues Inprocess

/-! ## Who lives -/

/-- The endpoints that a medium has constructed, and what matters of each: its channel, its role and
whether it can exchange messages with another one. -/
structure Census (ε : Type*) where
  endpoints : List ε
  destroyed : List ℕ
  channel : ε → Bytes
  role : ε → ConnectionRole
  joined : ε → ε → Prop

namespace Census

variable {ε : Type*}

/-- The endpoint number `i` is on the channel and has not been destroyed. -/
def Live (s : Census ε) (c : Bytes) (i : ℕ) (e : ε) : Prop :=
  s.endpoints[i]? = some e ∧ s.channel e = c ∧ i ∉ s.destroyed

/-- No endpoint lives on the channel. -/
def Nobody (s : Census ε) (c : Bytes) : Prop := ∀ i e, ¬ s.Live c i e

/-- One endpoint lives on the channel. -/
def Only (s : Census ε) (c : Bytes) (e : ε) : Prop :=
  ∃ i, s.Live c i e ∧ ∀ j o, s.Live c j o → j = i

/-- A new endpoint is a server if it is alone, and joins the one that lives with the other role. -/
structure Completes (s : Census ε) (c : Bytes) (e : ε) : Prop where
  alone (h : s.Nobody c) : s.role e = .server
  joins {o : ε} (h : s.Only c o) : s.role e = opposite (s.role o) ∧ s.joined e o

end Census

/-! ## The in-process medium -/

namespace Inprocess

variable {μ : Type*}

namespace Session

/-- The endpoints of the process. -/
def census (s : Session μ) : Census (Endpoint (Entry μ)) where
  endpoints := s.world.endpoints
  destroyed := s.destroyed
  channel := Endpoint.channel
  role := Endpoint.connectionRole
  joined e o := e.channel = o.channel ∧ e.sends = o.receives ∧ o.sends = e.receives

/-- An `Auto` endpoint constructed now has the role that completes a pair. -/
def AutoCompletes (s : Session μ) (c : Bytes) : Prop :=
  ∃ s' e, s.step (.call (.construct c .auto)) = some s' ∧
    s'.world.endpoints = s.world.endpoints ++ [e] ∧ s.census.Completes c e

/-- The maps have only channels on which an endpoint has been constructed. -/
def MapsKnown (w : World μ) : Prop :=
  ∀ d c, ((w.maps.get d).lookup c).isSome → ∃ e ∈ w.endpoints, e.channel = c

/-- A call that replaces an endpoint and adds no channel. -/
theorem mapsKnown_set {w : World μ} {i : ℕ} {e e' : Endpoint (Entry μ)} {maps : Maps (Entry μ)}
    {pushed : List (Entry μ)} (hw : MapsKnown w) (he : w.endpoints[i]? = some e)
    (hc : e'.channel = e.channel)
    (hm : ∀ d c, ((maps.get d).lookup c).isSome → ((w.maps.get d).lookup c).isSome) :
    MapsKnown ⟨maps, w.endpoints.set i e', pushed⟩ := by
  intro d c h
  exact exists_mem_set he (fun hec => hc.trans hec) (hw d c (hm d c h))

/-- An exchange adds no channel. -/
theorem isSome_of_exchange {w : World μ} {c c' : Bytes} {d d' : Direction}
    {queue queue' : List (Entry μ)} {map : Messages (Entry μ)}
    (hx : Exchanged (w.maps.get d) c queue queue' map)
    (h : (((w.maps.set map d).get d').lookup c').isSome) :
    ((w.maps.get d').lookup c').isSome := by
  by_cases hc : c' = c
  · subst hc
    by_cases hd : d' = d
    · subst hd
      cases hx with
      | unchanged => rwa [Maps.get_set_self] at h
      | swapped hl => rw [hl]; rfl
    · rwa [Maps.get_set_of_ne _ _ hd] at h
  · rwa [World.lookup_exchange_of_ne hx hc] at h

theorem mapsKnown_call {w w' : World μ} {a : Act μ} (hw : MapsKnown w) (h : w.step a = some w') :
    MapsKnown w' := by
  cases World.step_effect h with
  | construct channel role =>
    intro d c hl
    obtain ⟨q, hq⟩ := Option.isSome_iff_exists.mp hl
    rw [World.get_construct] at hq
    rcases lookup_ensureChannelExists hq with hq | ⟨-, rfl⟩
    · obtain ⟨e, he, hec⟩ := hw d c (by rw [hq]; rfl)
      exact ⟨e, List.mem_append_left _ he, hec⟩
    · exact ⟨_, List.mem_append_right _ (List.mem_singleton.mpr rfl), rfl⟩
  | sendMessage he => exact mapsKnown_set hw he rfl fun _ _ h => h
  | sendMessages he hx => exact mapsKnown_set hw he rfl fun _ _ => isSome_of_exchange hx
  | receiveMessages he hx => exact mapsKnown_set hw he rfl fun _ _ => isSome_of_exchange hx
  | distribute he => exact mapsKnown_set hw he rfl fun _ _ h => h

theorem mapsKnown_step {s s' : Session μ} {a : SessionAct μ} (hs : MapsKnown s.world)
    (h : s.step a = some s') : MapsKnown s'.world := by
  rcases step_cases h with ⟨b, w, -, -, hw, rfl⟩ | ⟨i, -, -, -, rfl⟩
  · exact mapsKnown_call hs hw
  · exact hs

/-- **When the in-process medium completes a pair**: nobody has ever been on the channel, or the one
that lives is a server. -/
theorem autoCompletes_iff {as : List (SessionAct μ)} {s : Session μ}
    (h : exec step init as = some s) (c : Bytes) :
    s.AutoCompletes c ↔ (s.census.Nobody c → ∀ i e, ¬ s.On c i e) ∧
      ∀ e, s.census.Only c e → e.connectionRole = .server := by
  have hi : s.world.Isolated := exec_invariant (I := fun s : Session μ => s.world.Isolated)
    (fun _ _ _ => isolated_step) h World.isolated_init
  have hk : MapsKnown s.world := exec_invariant (I := fun s : Session μ => MapsKnown s.world)
    (fun _ _ _ => mapsKnown_step) h fun d c h => by cases d <;> cases h
  -- the entry for the channel tells whether an endpoint has ever been there
  have hnone : s.world.maps.toServer.lookup c = none ↔ ∀ i e, ¬ s.On c i e := by
    constructor
    · rintro hn i e ⟨he, rfl⟩
      have hf := hi.found e (List.mem_of_getElem? he) .toServer
      rw [show s.world.maps.get .toServer = s.world.maps.toServer from rfl, hn] at hf
      cases hf
    · intro hn
      by_contra hs
      obtain ⟨e, he, hec⟩ := hk .toServer c (Option.isSome_iff_ne_none.mpr hs)
      obtain ⟨i, hi⟩ := List.mem_iff_getElem?.mp he
      exact hn i e ⟨hi, hec⟩
  have hstep : s.step (.call (.construct c .auto)) =
      some ⟨s.world.construct c .auto, s.destroyed⟩ := rfl
  constructor
  · rintro ⟨s', e, hs', hends, hcomp⟩
    rw [hstep] at hs'
    cases hs'
    obtain rfl := List.singleton_inj.mp (List.append_cancel_left hends)
    refine ⟨fun hnobody => ?_, fun o ho => ?_⟩
    · have hr : resolveRole s.world.maps c .auto = .server := hcomp.alone hnobody
      refine hnone.mp ?_
      by_contra hn
      rw [resolveRole, if_neg hn] at hr
      cases hr
    · have hr : resolveRole s.world.maps c .auto = opposite o.connectionRole := (hcomp.joins ho).1
      obtain ⟨i, ⟨hio, hoc, -⟩, -⟩ := ho
      have hn : s.world.maps.toServer.lookup c ≠ none := fun hn => hnone.mp hn i o ⟨hio, hoc⟩
      rw [resolveRole, if_neg hn] at hr
      cases hrole : o.connectionRole with
      | server => rfl
      | _ => rw [hrole] at hr; cases hr
  · rintro ⟨halone, hserver⟩
    refine ⟨_, _, hstep, rfl, fun hnobody => ?_, fun {o} ho => ?_⟩
    · show resolveRole s.world.maps c .auto = .server
      rw [resolveRole, if_pos (hnone.mpr (halone hnobody))]
    · have ho' := hserver o ho
      obtain ⟨i, ⟨hio, hoc, -⟩, -⟩ := ho
      have hn : s.world.maps.toServer.lookup c ≠ none := fun hn => hnone.mp hn i o ⟨hio, hoc⟩
      have hr : resolveRole s.world.maps c .auto = .client := by rw [resolveRole, if_neg hn]
      simp only [census, Endpoint.sends, Endpoint.receives, ho', hr]
      exact ⟨rfl, hoc.symm, rfl, rfl⟩

end Session

end Inprocess

/-! ## The SQLite medium -/

namespace Folder

/-- The endpoints of the folder. -/
def census (s : Folder) : Census FolderEndpoint where
  endpoints := s.endpoints
  destroyed := s.destroyed
  channel := FolderEndpoint.channel
  role := FolderEndpoint.connectionRole
  joined e o := e.file = o.file ∧ e.inserts = o.selects ∧ o.inserts = e.selects

/-- An `Auto` endpoint constructed now has the role that completes a pair. -/
def AutoCompletes (s : Folder) (c : Bytes) : Prop :=
  ∃ s' e, s.step (.construct c .auto) = some s' ∧ s'.endpoints = s.endpoints ++ [e] ∧
    s.census.Completes c e

/-- The file at the path of the channel is the one that the endpoint has open. -/
def HasFile (s : Folder) (c : Bytes) (e : FolderEndpoint) : Prop :=
  ∃ f, s.files (channelPath c) = some f ∧ f.number = e.file

/-- **When the SQLite medium completes a pair**: nobody has left a file, or the one that lives is a
server and its file is still there. -/
theorem autoCompletes_iff {as : List FolderAct} {s : Folder} (h : exec step init as = some s)
    (c : Bytes) : s.AutoCompletes c ↔ (s.census.Nobody c → s.files (channelPath c) = none) ∧
      ∀ e, s.census.Only c e → e.connectionRole = .server ∧ s.HasFile c e := by
  have hi : s.Inv := exec_invariant (fun _ _ _ => inv_step) h inv_init
  obtain ⟨schema, -, hstep⟩ := construct_eq hi c .auto
  constructor
  · rintro ⟨s', e, hs', hends, hcomp⟩
    rw [step, hstep] at hs'
    cases hs'
    obtain rfl := List.singleton_inj.mp (List.append_cancel_left hends)
    refine ⟨fun hnobody => ?_, fun o ho => ?_⟩
    · have hr := hcomp.alone hnobody
      cases hf : s.files (channelPath c) with
      | none => rfl
      | some f => simp [census, decideRole, hf] at hr
    · obtain ⟨hr, hfile, -⟩ := hcomp.joins ho
      obtain ⟨i, ⟨hio, -, -⟩, -⟩ := ho
      have hlt := hi.endpoints o (List.mem_of_getElem? hio)
      cases hf : s.files (channelPath c) with
      | none =>
        -- a new file is nobody's
        simp only [openFile, hf, Option.getD_none] at hfile
        omega
      | some f =>
        simp only [openFile, hf, Option.getD_some] at hfile
        refine ⟨?_, f, hf, hfile⟩
        simp only [census, decideRole, hf, Option.isSome_some, if_true] at hr
        cases hrole : o.connectionRole with
        | server => rfl
        | _ => rw [hrole] at hr; cases hr
  · rintro ⟨halone, hserver⟩
    refine ⟨_, _, hstep, rfl, fun hnobody => ?_, fun {o} ho => ?_⟩
    · simp [census, decideRole, halone hnobody]
    · obtain ⟨hrole, f, hf, hnum⟩ := hserver o ho
      simp [census, decideRole, openFile, FolderEndpoint.inserts, FolderEndpoint.selects, hf, hrole,
        hnum, opposite]

end Folder

/-! ## Both media -/

/-- **When `Auto` completes a pair.** After every history of constructions and destructions on any
channels, an `Auto` endpoint becomes a server if nobody lives on its channel, and gets the role
opposite to that of the only endpoint that does, so that they can exchange messages, if and only if:
in process, nobody has ever been on the channel in the first case, and the endpoint is a server in
the second; over files, the channel has no file in the first case, and the endpoint is a server
whose file is still there in the second. -/
theorem auto_completes_pair_iff {μ : Type*} {as : List (SessionAct μ)} {s : Session μ}
    (hs : exec Session.step .init as = some s) {bs : List FolderAct} {t : Folder}
    (ht : exec Folder.step .init bs = some t) (c : Bytes) :
    (s.AutoCompletes c ↔ (s.census.Nobody c → ∀ i e, ¬ s.On c i e) ∧
      ∀ e, s.census.Only c e → e.connectionRole = .server) ∧
    (t.AutoCompletes c ↔ (t.census.Nobody c → t.files (channelPath c) = none) ∧
      ∀ e, t.census.Only c e → e.connectionRole = .server ∧ t.HasFile c e) :=
  ⟨Session.autoCompletes_iff hs c, Folder.autoCompletes_iff ht c⟩

/-- A server that is there first. -/
theorem auto_completes_pair_iff_server :
    ∃ (s : Session ℕ) (t : Folder),
      exec Session.step .init [.call (.construct [97] .server)] = some s ∧
      exec Folder.step .init [.construct [97] .server] = some t ∧
      s.AutoCompletes [97] ∧ t.AutoCompletes [97] := by
  have key : ∀ (s : Session ℕ) (t : Folder),
      exec Session.step .init [.call (.construct [97] .server)] = some s →
      exec Folder.step .init [.construct [97] .server] = some t →
      s.AutoCompletes [97] ∧ t.AutoCompletes [97] := by
    intro s t hs ht
    have h := auto_completes_pair_iff hs ht [97]
    cases hs
    cases ht
    refine ⟨h.1.mpr ⟨fun hn => absurd ⟨rfl, rfl, List.not_mem_nil⟩ (hn 0 _), ?_⟩,
      h.2.mpr ⟨fun hn => absurd ⟨rfl, rfl, List.not_mem_nil⟩ (hn 0 _), ?_⟩⟩
    · rintro e ⟨i, ⟨he, -, -⟩, -⟩
      match i, he with
      | 0, he => cases he; rfl
      | i + 1, he => cases he
    · rintro e ⟨i, ⟨he, -, -⟩, -⟩
      match i, he with
      | 0, he => cases he; exact ⟨rfl, _, rfl, rfl⟩
      | i + 1, he => cases he
  exact ⟨_, _, rfl, rfl, key _ _ rfl rfl⟩

/-- **A client that comes first.** The `Auto` endpoint that follows it becomes a client too; and in
process a server that has come and gone leaves its successor without a server. -/
theorem auto_joins_client :
    (∃ s : Session ℕ, exec Session.step .init [.call (.construct [97] .client)] = some s ∧
      ¬ s.AutoCompletes [97]) ∧
    (∃ s : Session ℕ, exec Session.step .init
      [.call (.construct [97] .auto), .destroy 0] = some s ∧ ¬ s.AutoCompletes [97]) ∧
    ∃ s, exec Folder.step .init [.construct [97] .client] = some s ∧ ¬ s.AutoCompletes [97] := by
  have h₁ : ∀ s : Session ℕ, exec Session.step .init [.call (.construct [97] .client)] = some s →
      ¬ s.AutoCompletes [97] := by
    intro s h hs
    have hserver := ((Session.autoCompletes_iff h [97]).mp hs).2
    cases h
    refine ConnectionRole.noConfusion (hserver _ ⟨0, ⟨rfl, rfl, List.not_mem_nil⟩, fun j o ho => ?_⟩)
    match j, ho with
    | 0, _ => rfl
    | j + 1, ho => cases ho.1
  have h₂ : ∀ s : Session ℕ, exec Session.step .init [.call (.construct [97] .auto), .destroy 0] =
      some s → ¬ s.AutoCompletes [97] := by
    intro s h hs
    have halone := ((Session.autoCompletes_iff h [97]).mp hs).1
    cases h
    refine halone (fun i e he => ?_) 0 _ ⟨rfl, rfl⟩
    match i, he with
    | 0, he => exact he.2.2 (.head _)
    | i + 1, he => cases he.1
  have h₃ : ∀ s, exec Folder.step .init [.construct [97] .client] = some s →
      ¬ s.AutoCompletes [97] := by
    intro s h hs
    have hserver := ((Folder.autoCompletes_iff h [97]).mp hs).2
    cases h
    refine ConnectionRole.noConfusion
      (hserver _ ⟨0, ⟨rfl, rfl, List.not_mem_nil⟩, fun j o ho => ?_⟩).1
    match j, ho with
    | 0, _ => rfl
    | j + 1, ho => cases ho.1
  exact ⟨⟨_, rfl, h₁ _ rfl⟩, ⟨_, rfl, h₂ _ rfl⟩, ⟨_, rfl, h₃ _ rfl⟩⟩

end Petunia
