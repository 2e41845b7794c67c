import Ubx.SendMsg.Main

/-!
# The example component and a bridge

`main` of `src/zyre_bridge/test/test_send_msg.c` and a zyre bridge are alone in a group, and the
world model behind the bridge answers every query with a result that has its id. What is shouted
stays on its way until it is received, also behind the end of `main`.
-/

namespace Ubx.SendMsg

open Ubx.Base Ubx.Zyre

/-- `main` and a bridge, around which its calls go. -/
structure Session where
  main : MainState
  /-- Its component is the one of `main`. -/
  loop : Loop

/-- What can happen between them. -/
inductive SessionAction (J : Jansson) (b : ZyreBridge)
  /-- A pass of `main`, with something else than a shout of the bridge. -/
  | pass (e : MainEvent)
  /-- A pass of `main`, with the next shout of the bridge. -/
  | receive (peerid name group : Bytes) (clock : Option Timespec)
  /-- An action of the bridge, or of its world model. -/
  | way (a : LoopAction J b) (between : a.Between)

/-- Why an action does not come to an end. -/
inductive SessionStop
  | main (s : Stop)
  | way (s : LoopStop)

/-- Before the first action. -/
def Session.start (self : Component) (clock : Option Timespec) : Session :=
  ⟨.start self clock, .start self⟩

/-- What `main` has shouted in a pass is on its way. -/
def Session.tell (s : Session) (m : MainState) : Session where
  main := m
  loop := { s.loop with
    component := m.self
    queries := s.loop.queries ++ m.shouted.drop s.main.shouted.length }

/-- Both as one machine. -/
def sessionMachine (J : Jansson) (S : Setting) (zuuid : Nat → Bytes) (b : ZyreBridge)
    (respond : PortWrite → PortMessage b.config.maxMsgLength) (fuel : Nat) :
    Machine Session (SessionAction J b) SessionStop where
  step s
    | .pass e =>
      match (mainMachine J S fuel).step s.main e with
      | .error f => .error (.main f)
      | .ok m => .ok (s.tell m)
    | .receive peerid name group clock =>
      match s.loop.results with
      | [] => .ok s
      | text :: rest =>
        -- in front of its second loop and behind it nothing is received
        if s.main.phase = .waiting then
          match (mainMachine J S fuel).step s.main
            (.pass (some (some [ofString "SHOUT", peerid, name, group, text])) clock) with
          | .error f => .error (.main f)
          | .ok m => .ok (Session.tell ⟨s.main, { s.loop with results := rest }⟩ m)
        else .ok s
    | .way a _ =>
      match (loopMachine J zuuid b respond fuel).step s.loop a with
      | .error f => .error (.way f)
      | .ok l => .ok { s with loop := l }

/-- A message of zyre that is no shout, with the frames that its handler asserts. -/
structure Orderly (S : Setting) (event : Bytes) (rest : List Bytes) : Prop where
  shout : cString event ≠ ofString "SHOUT"
  enter : cString event = ofString "ENTER" → ∃ peerid name headers address,
    rest = [peerid, name, headers, address] ∧ S.unpacks headers = true
  exit : cString event = ofString "EXIT" → rest.length = 2
  whisper : cString event = ofString "WHISPER" → rest.length = 3
  join : cString event = ofString "JOIN" → rest.length = 3
  evasive : cString event = ofString "EVASIVE" → rest.length = 2

section

variable {J : Jansson} {b : ZyreBridge}

/-- What happens if the only shouts are those of the bridge, and events have a name. -/
def SessionAction.Proper (S : Setting)
    (respond : PortWrite → PortMessage b.config.maxMsgLength) : SessionAction J b → Prop
  | .pass (.pass (some (some msg)) _) => ∃ event rest, msg = event :: rest ∧ Orderly S event rest
  | .pass _ | .receive _ _ _ _ => True
  | .way a _ => a.Proper respond

/-- The action takes something on, and the clock reads `clock`. -/
def SessionAction.Moves (clock : Option Timespec) : SessionAction J b → Prop
  | .pass e => ∃ size, e = .peers size clock
  | .receive _ _ _ c => c = clock
  | .way a _ => a.Moves

variable (J b) in
/-- The calls that `main` has made are around the loop in order. -/
structure Synced (S : Setting) (s : Session) : Prop where
  component : s.loop.component = s.main.self
  told : Told J S s.main
  onWay : OnWay b ((mainCalls J S).take s.main.shouted.length) s.loop

end

/-! ### One action -/

section

variable {J : Jansson} {S : Setting} {zuuid : Nat → Bytes} {b : ZyreBridge}
  {respond : PortWrite → PortMessage b.config.maxMsgLength} {fuel : Nat} {s : Session}

/-- An orderly message changes nothing. -/
theorem handleMessage_orderly {event : Bytes} {rest : List Bytes} (h : Orderly S event rest)
    (self : Component) : handleMessage J S fuel self (event :: rest) = .ok (some self) := by
  have hpop {size : Nat} (hlen : rest.length = size) : popStrings size rest = .ok () :=
    if_neg (not_not.mpr hlen)
  rw [handleMessage_cons]
  split
  · next he =>
    obtain ⟨peerid, name, headers, address, rfl, hunpacks⟩ := h.enter he
    simp only [handleEnter, zmsgPopstr, List.length_cons, List.length_nil, hunpacks]
    rfl
  split
  · next he =>
    rw [handleExit, hpop (h.exit he)]
    rfl
  rw [if_neg h.shout]
  split
  · next he =>
    rw [handleWhisper, hpop (h.whisper he)]
    rfl
  split
  · next he =>
    rw [handleJoin, hpop (h.join he)]
    rfl
  split
  · next he =>
    rw [handleEvasive, hpop (h.evasive he)]
    rfl
  · rfl

/-- Calls that `main` makes in a pass are the last around the loop. -/
theorem Synced.tell {m : MainState} {qs : List (Asked J)} (new : List (Asked J))
    (h : OnWay b qs s.loop) (told : Told J S m)
    (uids : m.self.uids = s.loop.component.uids ++ new.map Asked.id)
    (texts : m.shouted = s.main.shouted ++ new.map Asked.text)
    (calls : (mainCalls J S).take m.shouted.length = qs ++ new) : Synced J b S (s.tell m) := by
  refine ⟨rfl, told, ?_⟩
  obtain ⟨through, returning, answered, reading, asking, hpos, hall⟩ := h
  have hasks := hpos.asks new uids
  refine ⟨through, returning, answered, reading, asking ++ new, ?_, ?_⟩
  · rw [Session.tell, texts, List.drop_left]
    exact hasks
  · show _ = (mainCalls J S).take m.shouted.length
    rw [calls, ← hall]
    simp

/-- A pass that changes neither the component nor what is shouted. -/
theorem Synced.keep (h : Synced J b S s) {m : MainState} (told : Told J S m)
    (self : m.self = s.main.self) (texts : m.shouted = s.main.shouted) :
    Synced J b S (s.tell m) := by
  apply Synced.tell [] h.onWay told
  · rw [self, h.component]
    simp
  · simpa using texts
  · rw [texts, List.append_nil]

/-- A pass that does not end with the updates. -/
theorem endPass_of_waiting {m : MainState} (hlist : m.self.queryList ≠ [])
    (clock : Option Timespec) :
    (m.endPass J S clock).self = m.self ∧ (m.endPass J S clock).shouted = m.shouted := by
  have hpos : 0 < m.self.queryList.length := List.length_pos_iff.mpr hlist
  rw [MainState.endPass, if_pos hpos]
  split
  · exact ⟨rfl, rfl⟩
  · exact ⟨rfl, rfl⟩

/-- A pass without a shout comes to an end. It changes nothing that is around the loop, or `main`
asks for the root node in it. -/
theorem pass_cases {m : MainState} (h : Told J S m) {e : MainEvent}
    (he : (SessionAction.pass e : SessionAction J b).Proper S respond) :
    ∃ m', (mainMachine J S fuel).step m e = .ok m' ∧
      (m'.self = m.self ∧ m'.shouted = m.shouted ∨
        m.phase = .connecting ∧ ∃ clock, m' = m.query J S clock) := by
  cases hphase : m.phase with
  | connecting =>
    cases e with
    | peers size clock =>
      simp only [mainMachine, hphase]
      split
      · exact ⟨_, rfl, .inr ⟨trivial, clock, rfl⟩⟩
      split
      · exact ⟨_, rfl, .inl ⟨rfl, rfl⟩⟩
      · exact ⟨_, rfl, .inl ⟨rfl, rfl⟩⟩
    | pass received clock => exact ⟨m, by simp only [mainMachine, hphase], .inl ⟨rfl, rfl⟩⟩
  | ended rc => exact ⟨m, by simp only [mainMachine, hphase], .inl ⟨rfl, rfl⟩⟩
  | waiting =>
    have hlist : m.self.queryList ≠ [] := by
      cases h with
      | asked x texts list => simp [list]
      | nothing texts list none phase => simp [hphase] at phase
      | ended texts phase => simp [hphase] at phase
      | all texts uids phase => simp [hphase] at phase
    cases e with
    | peers size clock => exact ⟨m, by simp only [mainMachine, hphase], .inl ⟨rfl, rfl⟩⟩
    | pass received clock =>
      rcases received with _ | _ | msg
      · exact ⟨m.endPass J S clock, by simp only [mainMachine, hphase],
          .inl (endPass_of_waiting hlist clock)⟩
      · exact ⟨{ m with phase := .ended (-1) }, by simp only [mainMachine, hphase],
          .inl ⟨rfl, rfl⟩⟩
      · obtain ⟨event, rest, rfl, horderly⟩ := he
        refine ⟨m.endPass J S clock, ?_, .inl (endPass_of_waiting hlist clock)⟩
        simp only [mainMachine, hphase, handleMessage_orderly horderly]
        rw [← hphase]

/-- In the first loop nothing has been shouted. -/
theorem Told.of_connecting {m : MainState} (h : Told J S m) (hphase : m.phase = .connecting) :
    m.shouted = [] ∧ m.drawn = 0 := by
  cases h with
  | nothing texts list none phase => exact ⟨texts, none⟩
  | asked x texts list id one phase => simp [hphase] at phase
  | ended texts phase => simp [hphase] at phase
  | all texts uids phase => simp [hphase] at phase

/-- In the second loop one query is waited for. -/
theorem Told.of_waiting {m : MainState} (h : Told J S m) (hphase : m.phase = .waiting) :
    m.shouted = [(rootCall J S).text] ∧ m.drawn = 1 ∧ ∃ x, m.self.queryList = [x] ∧
      x.uid.canonical = (rootCall J S).id := by
  cases h with
  | asked x texts list id one phase => exact ⟨texts, one, x, list, id⟩
  | nothing texts list none phase => simp [hphase] at phase
  | ended texts phase => simp [hphase] at phase
  | all texts uids phase => simp [hphase] at phase

/-- Behind more than one shout `main` has returned. -/
theorem Told.of_updates {m : MainState} (h : Told J S m) (hlen : 1 < m.shouted.length) :
    m.shouted = (mainCalls J S).map Asked.text ∧
      m.self.uids = (mainCalls J S).tail.map Asked.id ∧ m.phase = .ended 0 := by
  cases h with
  | all texts uids phase => exact ⟨texts, uids, phase⟩
  | nothing texts => simp [texts] at hlen
  | asked x texts => simp [texts] at hlen
  | ended texts => simp [texts] at hlen

/-- A pass without a shout. -/
theorem Synced.pass (hJ : J.RoundTrips) (hrej : J.RejectsScalars) (h : Synced J b S s)
    {e : MainEvent} (he : (SessionAction.pass e : SessionAction J b).Proper S respond) :
    ∃ s', (sessionMachine J S zuuid b respond (fuel + 1)).step s (.pass e) = .ok s' ∧
      Synced J b S s' := by
  have hpass : ∃ m, (mainMachine J S (fuel + 1)).step s.main e = .ok m ∧ _ := pass_cases h.told he
  obtain ⟨m, hs, hcases⟩ := hpass
  obtain ⟨told, -⟩ := h.told.step hJ hrej hs
  refine ⟨s.tell m, by simp only [sessionMachine, hs], ?_⟩
  rcases hcases with ⟨hself, htexts⟩ | ⟨hphase, clock, hquery⟩
  · exact h.keep told hself htexts
  · obtain ⟨htexts, hdrawn⟩ := h.told.of_connecting hphase
    obtain ⟨x, hx, heq⟩ := query_eq (J := J) (S := S) hdrawn clock
    have hway := h.onWay
    rw [htexts] at hway
    apply Synced.tell [rootCall J S] hway told
    · rw [hquery, heq, h.component]
      simp [Component.uids, hx]
    · rw [hquery, heq]
      rfl
    · rw [hquery, heq, htexts]
      rfl

/-- A shout is handled as such. -/
theorem handleMessage_shout (self : Component) (rest : List Bytes) :
    handleMessage J S fuel self (ofString "SHOUT" :: rest) = handleShout J fuel self rest := by
  rw [handleMessage_cons, if_neg (by decide), if_neg (by decide), if_pos (by decide)]

/-- What a bridge shouts for the result of a call answers it. -/
theorem IsResultText.answers (hJ : J.RoundTrips) {q : Asked J} {text : Bytes}
    (h : IsResultText q text) : AnswersQuery J q.id text := by
  obtain ⟨m, pl, t, htyped, ht, hn, hid, rfl⟩ := h
  exact ⟨_, _, _, _, _, loads_envelope hJ htyped hn, conforms_envelope ht pl, ht,
    (hJ.loads_wf _ _ htyped.1).2, hid⟩

/-- With nothing to wait for, a pass ends with no call or with all updates. -/
theorem endPass_calls {m : MainState} (texts : m.shouted = [(rootCall J S).text])
    (list : m.self.queryList = []) (one : m.drawn = 1) (clock : Option Timespec) :
    ∃ new, (m.endPass J S clock).self.uids = new.map Asked.id ∧
      (m.endPass J S clock).shouted = m.shouted ++ new.map Asked.text ∧
      (mainCalls J S).take (m.endPass J S clock).shouted.length = rootCall J S :: new := by
  rw [MainState.endPass]
  split
  · refine ⟨[], by simp [Component.uids, list], by simp, ?_⟩
    rw [texts]
    rfl
  · rw [if_neg (by simp [list])]
    obtain ⟨htexts, huids⟩ := updates_eq (J := J) (S := S) S.noOfUpdates.toNatClampNeg m
    rw [one] at htexts huids
    refine ⟨(List.range S.noOfUpdates.toNatClampNeg).map fun i ↦ createCall J S (1 + 2 * i), ?_, ?_,
      ?_⟩
    · show (m.updates J S S.noOfUpdates.toNatClampNeg).self.uids = _
      rw [huids]
      simp [Component.uids, list, Function.comp_def]
    · show (m.updates J S S.noOfUpdates.toNatClampNeg).shouted = _
      rw [htexts]
      simp [Function.comp_def]
    · show (mainCalls J S).take (m.updates J S S.noOfUpdates.toNatClampNeg).shouted.length = _
      apply List.take_of_length_le
      rw [htexts, texts, mainCalls]
      simp

/-- Where a result is on its way to `main` in its second loop, it is the one for the query. -/
theorem OnWay.of_waiting {text : Bytes} {rest : List Bytes} {l : Loop}
    (h : OnWay b [rootCall J S] l) (hresults : l.results = text :: rest) :
    IsResultText (rootCall J S) text ∧ Positions b l [] [rootCall J S] [] [] [] := by
  obtain ⟨through, returning, answered, reading, asking, hpos, hall⟩ := h
  have htexts := hpos.results
  rw [hresults] at htexts
  cases returning with
  | nil => cases htexts
  | cons q returning =>
    have hlen := congrArg List.length hall
    simp only [List.length_append, List.length_cons, List.length_nil] at hlen
    obtain rfl := List.length_eq_zero_iff.mp (show through.length = 0 by omega)
    obtain rfl := List.length_eq_zero_iff.mp (show returning.length = 0 by omega)
    obtain rfl := List.length_eq_zero_iff.mp (show answered.length = 0 by omega)
    obtain rfl := List.length_eq_zero_iff.mp (show reading.length = 0 by omega)
    obtain rfl := List.length_eq_zero_iff.mp (show asking.length = 0 by omega)
    obtain rfl := List.singleton_inj.mp hall
    exact ⟨(List.forall₂_cons.mp htexts).1, hpos⟩

/-- A pass with a shout of the bridge. The first one in time is followed by the updates. -/
theorem Synced.receive (hJ : J.RoundTrips) (hrej : J.RejectsScalars) (h : Synced J b S s)
    (peerid name group : Bytes) (clock : Option Timespec) :
    ∃ s', (sessionMachine J S zuuid b respond (fuel + 1)).step s
        (.receive peerid name group clock) = .ok s' ∧ Synced J b S s' ∧
      s'.loop.actor = s.loop.actor ∧
      (s.main.phase = .waiting → s.loop.results ≠ [] → overdue S s.main.ts clock = false →
        1 < s'.main.shouted.length) := by
  cases hresults : s.loop.results with
  | nil => exact ⟨s, by simp only [sessionMachine, hresults], h, rfl, by simp⟩
  | cons text rest =>
    by_cases hphase : s.main.phase = .waiting
    · obtain ⟨texts, one, x, list, hx⟩ := h.told.of_waiting hphase
      have hway := h.onWay
      rw [texts] at hway
      obtain ⟨htext, hpos⟩ := OnWay.of_waiting hway hresults
      have hanswers : AnswersQuery J x.uid.canonical text := by
        rw [hx]
        exact htext.answers hJ
      obtain ⟨self, hempty, hshout⟩ : ∃ self : Component, self.queryList = [] ∧
          handleShout J (fuel + 1) s.main.self [peerid, name, group, text] = .ok (some self) :=
        ⟨_, rfl, handleShout_answers hJ list hanswers fuel peerid name group⟩
      have hmain : (mainMachine J S (fuel + 1)).step s.main
          (.pass (some (some [ofString "SHOUT", peerid, name, group, text])) clock) =
          .ok (({ s.main with self := self } : MainState).endPass J S clock) := by
        simp only [mainMachine, hphase, handleMessage_shout, hshout]
      obtain ⟨told, -⟩ := h.told.step hJ hrej hmain
      obtain ⟨new, huids, hshouted, hcalls⟩ :=
        endPass_calls (m := { s.main with self := self }) texts hempty one clock
      -- on the way, the result is what takes the query off the list
      have hresult : ∃ l, (loopMachine J zuuid b respond (fuel + 1)).step s.loop
          (.result peerid name group) = .ok l ∧ _ := hpos.result hJ peerid name group
      obtain ⟨l, hl, -, hpos'⟩ := hresult
      simp only [loopMachine, hresults, h.component, hshout] at hl
      have hthrough : OnWay b [rootCall J S] l := ⟨_, _, _, _, _, hpos', rfl⟩
      rw [← Except.ok.inj hl] at hthrough
      have hstep : (sessionMachine J S zuuid b respond (fuel + 1)).step s
          (.receive peerid name group clock) =
          .ok (Session.tell ⟨s.main, { s.loop with results := rest }⟩
            (({ s.main with self := self } : MainState).endPass J S clock)) := by
        simp only [sessionMachine, hresults, if_pos hphase, hmain]
      refine ⟨_, hstep, ?_, rfl,
        fun _ _ hover ↦ (Told.endPass (s := { s.main with self := self }) texts hempty one hover).2⟩
      apply Synced.tell (s := ⟨s.main, { s.loop with component := self, results := rest }⟩) new
        hthrough told _ hshouted hcalls
      rw [huids]
      simp [Component.uids, hempty]
    · exact ⟨s, by simp only [sessionMachine, hresults, if_neg hphase], h, rfl,
        fun hwaiting ↦ absurd hwaiting hphase⟩

/-- No call of `main` has an id among its parameters. -/
theorem queryId_mainCalls :
    ∀ q ∈ mainCalls J S, jsonObjectGet q.call.params (ofString "queryId") = none := by
  refine List.forall_mem_cons.mpr ⟨rfl, fun q hq ↦ ?_⟩
  obtain ⟨i, -, rfl⟩ := List.mem_map.mp hq
  show jsonObjectGet (some (createParams none (S.zuuid (1 + 2 * i)))) (ofString "queryId") = none
  rw [createParams_none]
  rfl

/-- The world model answers each of them with a result. -/
theorem answered_mainCalls (hJ : J.RoundTrips)
    (hecho : ∀ q ∈ mainCalls J S, Echoes J respond q.payload) :
    ∀ q ∈ mainCalls J S, q.Answered respond :=
  fun q hq ↦ ⟨nests_mainCalls hJ q hq, (hecho q hq).isResult (queryId_mainCalls q hq)⟩

/-- An action of the bridge, or of its world model. -/
theorem Synced.way (hJ : J.RoundTrips) {ext : InitExtern} (hb : b.Initialised ext)
    (hecho : ∀ q ∈ mainCalls J S, Echoes J respond q.payload) (h : Synced J b S s)
    {a : LoopAction J b} (between : a.Between) (ha : a.Proper respond) :
    ∃ s', (sessionMachine J S zuuid b respond fuel).step s (.way a between) = .ok s' ∧
      Synced J b S s' := by
  have hresult : ∀ q ∈ (mainCalls J S).take s.main.shouted.length, q.Answered respond := by
    intro q hq
    exact answered_mainCalls hJ hecho q (List.mem_of_mem_take hq)
  have hbetween : ∃ l, (loopMachine J zuuid b respond fuel).step s.loop a = .ok l ∧ _ :=
    OnWay.between hJ hb h.onWay hresult between ha
  obtain ⟨l, hs, hway⟩ := hbetween
  refine ⟨{ s with loop := l }, by simp only [sessionMachine, hs], ?_⟩
  exact ⟨(component_of_between between hs).trans h.component, h.told, hway⟩

/-- A proper action comes to an end, with the calls in order. -/
theorem Synced.step (hJ : J.RoundTrips) (hrej : J.RejectsScalars) {ext : InitExtern}
    (hb : b.Initialised ext) (hecho : ∀ q ∈ mainCalls J S, Echoes J respond q.payload)
    (h : Synced J b S s) {a : SessionAction J b} (ha : a.Proper S respond) :
    ∃ s', (sessionMachine J S zuuid b respond (fuel + 1)).step s a = .ok s' ∧
      Synced J b S s' := by
  cases a with
  | pass e => exact h.pass hJ hrej ha
  | receive peerid name group clock =>
    obtain ⟨s', hs, hs', -⟩ := h.receive hJ hrej peerid name group clock
    exact ⟨s', hs, hs'⟩
  | way a between => exact h.way hJ hb hecho between ha

end

/-! ### Runs -/

section

variable {J : Jansson} {S : Setting} (zuuid : Nat → Bytes) {b : ZyreBridge}
  {respond : PortWrite → PortMessage b.config.maxMsgLength} (fuel : Nat) {s : Session}

/-- A proper run comes to an end, with the calls in order. -/
theorem run_synced (hJ : J.RoundTrips) (hrej : J.RejectsScalars) {ext : InitExtern}
    (hb : b.Initialised ext) (hecho : ∀ q ∈ mainCalls J S, Echoes J respond q.payload)
    {self : Component} (hself : self.queryList = []) (clock : Option Timespec)
    {acts : List (SessionAction J b)} (ha : ∀ a ∈ acts, a.Proper S respond) :
    ∃ s, (sessionMachine J S zuuid b respond (fuel + 1)).run (.start self clock) acts = .ok s ∧
      Synced J b S s := by
  apply Machine.run_total (P := fun _ s ↦ Synced J b S s) (A := fun a ↦ a.Proper S respond) _ _ ha
  · exact ⟨rfl, .nothing rfl hself rfl (.inl rfl), inOrder_start (J := J) hself⟩
  · intro acts s a hs hproper
    exact hs.step hJ hrej hb hecho hproper

/-- What the bridge and its world model do by themselves, they do in a session. -/
theorem exists_way (clock : Option Timespec) {more : List (LoopAction J b)}
    (hmore : ∀ a ∈ more, a.Between ∧ a.Moves) {l : Loop}
    (hr : (loopMachine J zuuid b respond fuel).run s.loop more = .ok l) :
    ∃ acts : List (SessionAction J b), (∀ a ∈ acts, a.Moves clock) ∧
      (sessionMachine J S zuuid b respond fuel).run s acts = .ok { s with loop := l } ∧
      l.component = s.loop.component := by
  induction more generalizing s with
  | nil =>
    obtain rfl := Except.ok.inj hr
    exact ⟨[], by simp, rfl, rfl⟩
  | cons a more ih =>
    obtain ⟨l₁, hs, hr⟩ := Machine.run_cons.mp hr
    obtain ⟨⟨hbetween, hmoves⟩, hmore⟩ := List.forall_mem_cons.mp hmore
    obtain ⟨acts, hacts, hrun, hcomponent⟩ := ih (s := { s with loop := l₁ }) hmore hr
    have hstep : (sessionMachine J S zuuid b respond fuel).step s (.way a hbetween) =
        .ok { s with loop := l₁ } := by
      simp only [sessionMachine, hs]
    exact ⟨.way a hbetween :: acts, List.forall_mem_cons.mpr ⟨hmoves, hacts⟩,
      Machine.run_cons.mpr ⟨_, hstep, hrun⟩, hcomponent.trans (component_of_between hbetween hs)⟩

/-- All results can be brought to `main`, while it does nothing. -/
theorem Synced.exists_returned (hJ : J.RoundTrips) {ext : InitExtern} (hb : b.Initialised ext)
    (hecho : ∀ q ∈ mainCalls J S, Echoes J respond q.payload) (hk : 0 < b.config.maxSend.toInt)
    (h : Synced J b S s) (hrun : s.loop.actor.loop = .running) (clock : Option Timespec) :
    ∃ (more : List (SessionAction J b)) (s' : Session) (through returning : List (Asked J)),
      (∀ a ∈ more, a.Moves clock) ∧
      (sessionMachine J S zuuid b respond fuel).run s more = .ok s' ∧ s'.main = s.main ∧
      Synced J b S s' ∧ s'.loop.actor.loop = .running ∧
      Positions b s'.loop through returning [] [] [] ∧
      through ++ returning = (mainCalls J S).take s.main.shouted.length := by
  obtain ⟨through, returning, answered, reading, asking, hpos, hall⟩ := h.onWay
  have hq : ∀ q ∈ reading ++ asking, q.Answered respond := by
    intro q hq
    apply answered_mainCalls hJ hecho
    apply List.mem_of_mem_take
    rw [← hall, List.append_assoc]
    exact List.mem_append_right _ hq
  have hreturned : ∃ more l, (∀ a ∈ more, a.Between ∧ a.Moves) ∧
      (loopMachine J zuuid b respond fuel).run s.loop more = .ok l ∧ _ :=
    hpos.exists_returned hJ hb hk _ hq hrun rfl
  obtain ⟨more, l, hmore, hr, hrun', hpos'⟩ := hreturned
  obtain ⟨acts, hacts, hrunacts, hcomponent⟩ := exists_way (S := S) zuuid fuel clock hmore hr
  refine ⟨acts, { s with loop := l }, _, _, hacts, hrunacts, rfl, ?_, hrun', hpos', ?_⟩
  · refine ⟨hcomponent.trans h.component, h.told, _, _, _, _, _, hpos', ?_⟩
    rw [← hall]
    simp
  · rw [← hall]
    simp

/-- Once the updates are shouted, they get to the world model. -/
theorem Synced.exists_delivered (hJ : J.RoundTrips) {ext : InitExtern} (hb : b.Initialised ext)
    (hecho : ∀ q ∈ mainCalls J S, Echoes J respond q.payload) (hk : 0 < b.config.maxSend.toInt)
    (h : Synced J b S s) (hrun : s.loop.actor.loop = .running)
    (hall : 1 < s.main.shouted.length) (clock : Option Timespec) :
    ∃ (more : List (SessionAction J b)) (s' : Session), (∀ a ∈ more, a.Moves clock) ∧
      (sessionMachine J S zuuid b respond fuel).run s more = .ok s' ∧
      s'.main.phase = .ended 0 ∧ s'.main.shouted = (mainCalls J S).map Asked.text ∧
      s'.loop.actor.zyreIn = (mainCalls J S).map Asked.written := by
  obtain ⟨more, s', through, returning, hmore, hr, hmain, -, -, hpos, hcalls⟩ :=
    h.exists_returned zuuid fuel hJ hb hecho hk hrun clock
  obtain ⟨texts, -, phase⟩ := h.told.of_updates hall
  refine ⟨more, s', hmore, hr, by rw [hmain, phase], by rw [hmain, texts], ?_⟩
  rw [texts, List.length_map, List.take_length] at hcalls
  rw [hpos.zyreIn, ← hcalls]
  simp

/-- From the second loop on the answer can be received, and the updates shouted. -/
theorem Synced.exists_answered (hJ : J.RoundTrips) (hrej : J.RejectsScalars) {ext : InitExtern}
    (hb : b.Initialised ext) (hecho : ∀ q ∈ mainCalls J S, Echoes J respond q.payload)
    (hk : 0 < b.config.maxSend.toInt) (h : Synced J b S s)
    (hrun : s.loop.actor.loop = .running) (hphase : s.main.phase = .waiting)
    {clock : Option Timespec} (hover : overdue S s.main.ts clock = false) :
    ∃ (more : List (SessionAction J b)) (s' : Session), (∀ a ∈ more, a.Moves clock) ∧
      (sessionMachine J S zuuid b respond (fuel + 1)).run s more = .ok s' ∧ Synced J b S s' ∧
      s'.loop.actor.loop = .running ∧ 1 < s'.main.shouted.length := by
  obtain ⟨more, s₁, through, returning, hmore, hr, hmain, hs₁, hrun₁, hpos, hcalls⟩ :=
    h.exists_returned zuuid (fuel + 1) hJ hb hecho hk hrun clock
  obtain ⟨texts, -, x, list, -⟩ := h.told.of_waiting hphase
  -- one query is waited for, so it is its result that has been brought
  have hresults : s₁.loop.results ≠ [] := by
    intro hnone
    have hlen := hpos.results.length_eq
    have huids := congrArg List.length hpos.uids
    rw [hs₁.component, hmain] at huids
    simp only [Component.uids, list, List.length_map, List.length_append, List.length_cons,
      List.length_nil] at huids
    rw [hnone, List.length_nil] at hlen
    omega
  have hreceive : ∃ s', (sessionMachine J S zuuid b respond (fuel + 1)).step s₁
      (.receive [] [] [] clock) = .ok s' ∧ _ := hs₁.receive hJ hrej [] [] [] clock
  obtain ⟨s', hs, hs', hactor, hshouted⟩ := hreceive
  refine ⟨more ++ [.receive [] [] [] clock], s',
    List.forall_mem_append.mpr ⟨hmore, by simp [SessionAction.Moves]⟩,
    Machine.run_concat.mpr ⟨s₁, hr, hs⟩, hs', hactor ▸ hrun₁, ?_⟩
  exact hshouted (by rw [hmain, hphase]) hresults (by rw [hmain, hover])

/-- From anywhere but behind a timeout or an interrupt, `main` can be brought to its end. -/
theorem Synced.exists_end (hJ : J.RoundTrips) (hrej : J.RejectsScalars) {ext : InitExtern}
    (hb : b.Initialised ext) (hecho : ∀ q ∈ mainCalls J S, Echoes J respond q.payload)
    (hk : 0 < b.config.maxSend.toInt) (h : Synced J b S s)
    (hrun : s.loop.actor.loop = .running)
    (hended : ∀ rc, s.main.phase = .ended rc → 1 < s.main.shouted.length)
    {clock : Option Timespec} (hover : overdue S s.main.ts clock = false)
    (hover' : overdue S (clock.getD s.main.ts) clock = false) :
    ∃ (more : List (SessionAction J b)) (s' : Session), (∀ a ∈ more, a.Moves clock) ∧
      (sessionMachine J S zuuid b respond (fuel + 1)).run s more = .ok s' ∧
      s'.main.phase = .ended 0 ∧ s'.main.shouted = (mainCalls J S).map Asked.text ∧
      s'.loop.actor.zyreIn = (mainCalls J S).map Asked.written := by
  have hupdates : ∃ (first : List (SessionAction J b)) (s₁ : Session),
      (∀ a ∈ first, a.Moves clock) ∧
      (sessionMachine J S zuuid b respond (fuel + 1)).run s first = .ok s₁ ∧ Synced J b S s₁ ∧
      s₁.loop.actor.loop = .running ∧ 1 < s₁.main.shouted.length := by
    cases hphase : s.main.phase with
    | waiting => exact h.exists_answered zuuid fuel hJ hrej hb hecho hk hrun hphase hover
    | ended rc => exact ⟨[], s, by simp, rfl, h, hrun, hended rc hphase⟩
    | connecting =>
      have hmain : (mainMachine J S (fuel + 1)).step s.main (.peers 1 clock) =
          .ok (s.main.query J S clock) := by
        simp only [mainMachine, hphase]
        rfl
      have hstep : (sessionMachine J S zuuid b respond (fuel + 1)).step s
          (.pass (.peers 1 clock)) = .ok (s.tell (s.main.query J S clock)) := by
        simp only [sessionMachine, hmain]
      have hproper : (SessionAction.pass (.peers 1 clock) : SessionAction J b).Proper S respond :=
        trivial
      have hpass : ∃ s₁, (sessionMachine J S zuuid b respond (fuel + 1)).step s
          (.pass (.peers 1 clock)) = .ok s₁ ∧ _ := h.pass hJ hrej hproper
      obtain ⟨s₁, hs, hs₁⟩ := hpass
      obtain rfl := Except.ok.inj (hstep.symm.trans hs)
      obtain ⟨more, s', hmore, hr, hs'⟩ :=
        hs₁.exists_answered zuuid fuel hJ hrej hb hecho hk hrun rfl hover'
      exact ⟨.pass (.peers 1 clock) :: more, s',
        List.forall_mem_cons.mpr ⟨⟨1, rfl⟩, hmore⟩, Machine.run_cons.mpr ⟨_, hs, hr⟩, hs'⟩
  obtain ⟨first, s₁, hfirst, hr₁, hs₁, hrun₁, hlen⟩ := hupdates
  obtain ⟨more, s', hmore, hr, hend⟩ :=
    hs₁.exists_delivered zuuid (fuel + 1) hJ hb hecho hk hrun₁ hlen clock
  exact ⟨first ++ more, s', List.forall_mem_append.mpr ⟨hfirst, hmore⟩,
    Machine.run_append.mpr ⟨s₁, hr₁, hr⟩, hend⟩

end

/-- The example program, a bridge, and a world model that answers each of its calls with a result
that has its id: over any order of passes, deliveries, steps, answers and restarts of the actor,
with any clock, nothing fails. The world model gets what is shouted, once and in order, and an
update is shouted only behind an answer. Unless `main` has ended with a timeout or an interrupt,
wherever the run ends and with any readings of the clock that are in time, `main` can be brought
to return 0 with all its updates shouted and handed on to the world model. -/
theorem session_delivers {J : Jansson} (hJ : J.RoundTrips) (hrej : J.RejectsScalars)
    {ext : InitExtern} {b : ZyreBridge} (hb : b.Initialised ext) (zuuid : Nat → Bytes)
    {S : Setting} {respond : PortWrite → PortMessage b.config.maxMsgLength}
    (hecho : ∀ q ∈ mainCalls J S, Echoes J respond q.payload) {self : Component}
    (hself : self.queryList = []) (clock : Option Timespec) (fuel : Nat)
    {acts : List (SessionAction J b)} (ha : ∀ a ∈ acts, a.Proper S respond) :
    ∃ s, (sessionMachine J S zuuid b respond (fuel + 1)).run (.start self clock) acts = .ok s ∧
      (s.main.shouted = [] ∨ s.main.shouted = [(rootCall J S).text] ∨
        s.main.shouted = (mainCalls J S).map Asked.text) ∧
      s.loop.actor.zyreIn <+:
        ((mainCalls J S).take s.main.shouted.length).map Asked.written ∧
      (1 < s.main.shouted.length → 0 < s.loop.answered) ∧
      (s.loop.actor.loop = .running → 0 < b.config.maxSend.toInt →
        (∀ rc, s.main.phase = .ended rc → 1 < s.main.shouted.length) →
        ∀ clock, overdue S s.main.ts clock = false →
          overdue S (clock.getD s.main.ts) clock = false →
          ∃ (more : List (SessionAction J b)) (s' : Session), (∀ a ∈ more, a.Moves clock) ∧
            (sessionMachine J S zuuid b respond (fuel + 1)).run s more = .ok s' ∧
            s'.main.phase = .ended 0 ∧ s'.main.shouted = (mainCalls J S).map Asked.text ∧
            s'.loop.actor.zyreIn = (mainCalls J S).map Asked.written) := by
  obtain ⟨s, hr, hs⟩ := run_synced zuuid fuel hJ hrej hb hecho hself clock ha
  obtain ⟨through, returning, answered, reading, asking, hpos, hall⟩ := hs.onWay
  refine ⟨s, hr, ?_, ?_, fun hlen ↦ ?_, fun hrun hk hended clock hover hover' ↦
    hs.exists_end zuuid fuel hJ hrej hb hecho hk hrun hended hover hover'⟩
  · cases hs.told with
    | nothing texts => exact .inl texts
    | asked x texts => exact .inr (.inl texts)
    | ended texts => exact .inr (.inl texts)
    | all texts => exact .inr (.inr texts)
  · rw [hpos.zyreIn, ← hall]
    exact ⟨asking.map Asked.written, by simp⟩
  · -- the updates alone are waited for, so the query is through
    obtain ⟨texts, uids, -⟩ := hs.told.of_updates hlen
    have hcalls : 1 < (mainCalls J S).length := length_mainCalls
    have hwaited := congrArg List.length hpos.uids
    have hmade := congrArg List.length hall
    rw [hs.component, uids] at hwaited
    simp only [List.length_map, List.length_append, List.length_tail] at hwaited
    simp only [texts, List.length_map, List.take_length, List.length_append] at hmade
    rw [hpos.count]
    simp only [List.length_append]
    omega

/-- The example world model answers every call with the UUID of the example. -/
theorem echoes_twoUpdates : ∀ q ∈ mainCalls .reference twoUpdates,
    Echoes (b := plainBridge) .reference (fun _ ↦ rootResult) q.payload := by
  intro q hq
  refine ⟨_, _, rootResult_typed, by decide, by decide, ?_⟩
  have hid : q.uuid = testUuid := by
    rcases List.mem_cons.mp hq with rfl | hq
    · rfl
    · obtain ⟨i, -, rfl⟩ := List.mem_map.mp hq
      rfl
  rw [Asked.payload, payload_queryId, queryId_mainCalls q hq, hid]
  rfl

/-- With a peer the query is shouted, and `main` can return with two updates shouted. -/
theorem session_delivers_two :
    ∃ s, (sessionMachine .reference twoUpdates (fun _ ↦ ofString "1F") plainBridge
        (fun _ ↦ rootResult) 1).run (.start idleComponent none) [.pass (.peers 1 none)] = .ok s ∧
      s.main.shouted.length = 1 ∧
      ∃ more s', (sessionMachine .reference twoUpdates (fun _ ↦ ofString "1F") plainBridge
          (fun _ ↦ rootResult) 1).run s more = .ok s' ∧ s'.main.phase = .ended 0 ∧
        s'.main.shouted.length = 3 ∧ s'.loop.actor.zyreIn.length = 3 := by
  have hproper : ∀ a ∈ ([.pass (.peers 1 none)] : List (SessionAction .reference plainBridge)),
      a.Proper twoUpdates fun _ ↦ rootResult := by
    intro a ha
    obtain rfl := List.mem_singleton.mp ha
    trivial
  have hempty : idleComponent.queryList = [] := rfl
  obtain ⟨s, hr, -, -, -, hmore⟩ := session_delivers Jansson.reference_roundTrips
    Jansson.reference_rejectsScalars plainBridge_initialised (fun _ ↦ ofString "1F")
    echoes_twoUpdates hempty none 0 hproper
  have hs := Except.ok.inj hr
  have hrun : s.loop.actor.loop = .running := by
    rw [← hs]
    rfl
  have hended : ∀ rc, s.main.phase = .ended rc → 1 < s.main.shouted.length := by
    rw [← hs]
    intro rc hrc
    cases hrc
  obtain ⟨more, s', -, hr', hphase, hshouted, hin⟩ :=
    hmore hrun (by decide) hended none rfl rfl
  refine ⟨s, hr, ?_, more, s', hr', hphase, ?_, ?_⟩
  · rw [← hs]
    rfl
  · rw [hshouted]
    rfl
  · rw [hin]
    rfl

end Ubx.SendMsg
