import ApiDoc.Hub

/-!
# Publications inside publications

Listeners may change the lists that are being walked, publish under the same topic, and fail
halfway. Whatever they do, a publication calls the listeners that were on the list when it started,
in order and up to the first that fails, and the lists afterwards are those at the start with the
changes that the listeners made, one after the other.

* `listeners_replay`: a run of changes, seen from one topic.
* `honest_perform`: what holds of one action holds of all that happens inside it.
* `extends_perform`: a bound on the depth that is not reached makes no difference.
* `publish_under_reentrancy`: the statement about publications.

Nothing is assumed of the listeners: a script is any finite course of one call, another one for
each call, and it sees whether its own publications failed.
-/

namespace ApiDoc.Hub

/-! ## Changes of the lists -/

/-- What an action by itself does to the hub. -/
def apply (hub : Hub) : Action → Hub
  | .subscribe topic l => hub.subscribe topic l
  | .unsubscribe topic l => hub.unsubscribe topic l
  | .publish _ _ => hub

/-- The hub after all that happened. -/
def replay (hub : Hub) (events : List Event) : Hub :=
  (events.filterMap Event.action?).foldl apply hub

/-- What an action by itself does to the listeners of a topic. -/
def editList (topic : String) (ls : List String) : Action → List String
  | .subscribe t l => if t = topic then ls ++ [l] else ls
  | .unsubscribe t none => if t = topic then [] else ls
  | .unsubscribe t (some l) => if t = topic then ls.erase l else ls
  | .publish _ _ => ls

theorem replay_append (hub : Hub) (es fs : List Event) :
    hub.replay (es ++ fs) = (hub.replay es).replay fs := by
  rw [replay, List.filterMap_append, List.foldl_append, ← replay, ← replay]

theorem listeners_apply (hub : Hub) (topic : String) (a : Action) :
    (hub.apply a).listeners topic = editList topic (hub.listeners topic) a := by
  cases a with
  | subscribe t l =>
    rw [apply, listeners_subscribe, editList]
    by_cases h : t = topic
    · subst h
      rfl
    · rw [if_neg (Ne.symm h), if_neg h]
  | unsubscribe t l =>
    rw [apply, listeners_unsubscribe]
    by_cases h : t = topic
    · subst h
      cases l <;> simp [editList]
    · cases l <;> simp [editList, h, Ne.symm h]
  | publish t payload => rfl

theorem listeners_replay (hub : Hub) (topic : String) (events : List Event) :
    (hub.replay events).listeners topic =
      (events.filterMap Event.action?).foldl (editList topic) (hub.listeners topic) := by
  unfold replay
  induction events.filterMap Event.action? generalizing hub with
  | nil => rfl
  | cons a as ih => rw [List.foldl_cons, ih, listeners_apply, List.foldl_cons]

/-! ## Honest records -/

/-- The script was followed to its end. -/
def Script.Follows : Script → List Deed → Option Failure → Prop
  | .finish f, deeds, failure => deeds = [] ∧ failure = f
  | .act _ _, [], _ => False
  | .act a next, d :: ds, failure => d.action = a ∧ (next d.failure).Follows ds failure

/-- The listeners were called in order, all of them or up to one that failed. -/
inductive Serves (listeners : List String) (calls : List Call) : Option Failure → Prop where
  | all (names : calls.map Call.listener = listeners) (fine : ∀ c ∈ calls, c.failure = none) :
      Serves listeners calls none
  | upTo {front : List Call} {last : Call} {rest : List String} {f : Failure}
      (split : calls = front ++ [last])
      (names : listeners = calls.map Call.listener ++ rest)
      (fine : ∀ c ∈ front, c.failure = none) (failed : last.failure = some f) :
      Serves listeners calls (some f)

theorem Serves.cons {c : Call} {calls : List Call} {ls : List String} {failure : Option Failure}
    (hc : c.failure = none) (h : Serves ls calls failure) :
    Serves (c.listener :: ls) (c :: calls) failure := by
  cases h with
  | all names fine =>
    refine .all ?_ (List.forall_mem_cons.2 ⟨hc, fine⟩)
    rw [List.map_cons, names]
  | @upTo front last rest f split names fine failed =>
    refine @Serves.upTo _ _ (c :: front) last rest f ?_ ?_ (List.forall_mem_cons.2 ⟨hc, fine⟩)
      failed
    · rw [split, List.cons_append]
    · rw [names, List.map_cons, List.cons_append]

theorem Serves.single {c : Call} {ls : List String} {f : Failure} (hc : c.failure = some f) :
    Serves (c.listener :: ls) [c] (some f) := by
  refine @Serves.upTo _ _ [] c ls f rfl rfl ?_ hc
  intro d hd
  cases hd

mutual

/-- Every publication in the record called the listeners on its list at the time, and every
listener did what it does. The hub is the one at the start. -/
def Deed.Faithful (behaviour : Behaviour) (hub : Hub) : Deed → Prop
  | .publish topic payload calls failure =>
    Serves (hub.listeners topic) calls failure ∧ (∀ c ∈ calls, c.payload = payload) ∧
      Call.AllFaithful behaviour hub calls
  | .subscribe _ _ => True
  | .unsubscribe _ _ => True
  | .refused _ _ => True

def Call.Faithful (behaviour : Behaviour) (hub : Hub) : Call → Prop
  | .mk l payload deeds failure =>
    (∃ called, (behaviour called l payload).Follows deeds failure) ∧
      Deed.AllFaithful behaviour hub deeds

def Call.AllFaithful (behaviour : Behaviour) (hub : Hub) : List Call → Prop
  | [] => True
  | c :: cs => c.Faithful behaviour hub ∧ Call.AllFaithful behaviour (hub.replay c.events) cs

def Deed.AllFaithful (behaviour : Behaviour) (hub : Hub) : List Deed → Prop
  | [] => True
  | d :: ds => d.Faithful behaviour hub ∧ Deed.AllFaithful behaviour (hub.replay d.events) ds

end

section

variable {behaviour : Behaviour} {run : Moment → Action → Moment × Deed} {payload : Data}
  {m : Moment} {l : String}

theorem callAll_of_failure {f : Failure} (ls : List String)
    (hf : (callListener run behaviour payload m l).2.failure = some f) :
    callAll run behaviour payload m (l :: ls) =
      ((callListener run behaviour payload m l).1,
        [(callListener run behaviour payload m l).2], some f) := by
  rw [callAll]
  simp only [hf]

theorem callAll_of_fine (ls : List String)
    (hf : (callListener run behaviour payload m l).2.failure = none) :
    callAll run behaviour payload m (l :: ls) =
      let r := callAll run behaviour payload (callListener run behaviour payload m l).1 ls
      (r.1, (callListener run behaviour payload m l).2 :: r.2.1, r.2.2) := by
  rw [callAll]
  simp only [hf]

end

/-- A way to do actions that records what it does. -/
structure Honest (behaviour : Behaviour) (run : Moment → Action → Moment × Deed) : Prop where
  action : ∀ m a, (run m a).2.action = a
  hub : ∀ m a, (run m a).1.hub = m.hub.replay (run m a).2.events
  faithful : ∀ m a, (run m a).2.Faithful behaviour m.hub

section

variable {behaviour : Behaviour} {run : Moment → Action → Moment × Deed}
  (h : Honest behaviour run)
include h

theorem Honest.runScript (script : Script) (m : Moment) :
    let r := Hub.runScript run m script
    r.1.hub = m.hub.replay (Deed.allEvents r.2.1) ∧ Deed.AllFaithful behaviour m.hub r.2.1 ∧
      script.Follows r.2.1 r.2.2 := by
  induction script generalizing m with
  | finish f => exact ⟨rfl, trivial, rfl, rfl⟩
  | act a next ih =>
    obtain ⟨hhub, hfaithful, hfollows⟩ := ih (run m a).2.failure (run m a).1
    rw [h.hub m a] at hhub hfaithful
    refine ⟨?_, ⟨h.faithful m a, hfaithful⟩, h.action m a, hfollows⟩
    rw [Hub.runScript, Deed.allEvents, replay_append]
    exact hhub

theorem Honest.callListener (payload : Data) (m : Moment) (l : String) :
    let r := Hub.callListener run behaviour payload m l
    r.1.hub = m.hub.replay r.2.events ∧ r.2.Faithful behaviour m.hub ∧
      r.2.listener = l ∧ r.2.payload = payload := by
  obtain ⟨hhub, hfaithful, hfollows⟩ := h.runScript (behaviour m.called l payload)
    { m with called := m.called + 1 }
  refine ⟨?_, ⟨⟨m.called, hfollows⟩, hfaithful⟩, rfl, rfl⟩
  rw [Hub.callListener, Call.events]
  exact hhub

theorem Honest.callAll (payload : Data) (ls : List String) (m : Moment) :
    let r := Hub.callAll run behaviour payload m ls
    r.1.hub = m.hub.replay (Call.allEvents r.2.1) ∧ Call.AllFaithful behaviour m.hub r.2.1 ∧
      Serves ls r.2.1 r.2.2 ∧ ∀ c ∈ r.2.1, c.payload = payload := by
  induction ls generalizing m with
  | nil =>
    refine ⟨rfl, trivial, .all rfl ?_, ?_⟩
    · intro c hc
      cases hc
    · intro c hc
      cases hc
  | cons l ls ih =>
    obtain ⟨hhub, hfaithful, hlistener, hpayload⟩ := h.callListener payload m l
    cases hfailure : (Hub.callListener run behaviour payload m l).2.failure with
    | some f =>
      rw [callAll_of_failure ls hfailure]
      refine ⟨?_, ⟨hfaithful, trivial⟩, hlistener ▸ Serves.single hfailure, ?_⟩
      · rw [Call.allEvents, Call.allEvents, List.append_nil]
        exact hhub
      · intro c hc
        rw [List.mem_singleton.1 hc, hpayload]
    | none =>
      obtain ⟨hhubs, hfaithfuls, hserves, hpayloads⟩ :=
        ih (Hub.callListener run behaviour payload m l).1
      rw [hhub] at hhubs hfaithfuls
      rw [callAll_of_fine ls hfailure]
      refine ⟨?_, ⟨hfaithful, hfaithfuls⟩, hlistener ▸ hserves.cons hfailure, ?_⟩
      · rw [Call.allEvents, replay_append]
        exact hhubs
      · exact List.forall_mem_cons.2 ⟨hpayload, hpayloads⟩

end

theorem honest_perform (behaviour : Behaviour) (depth : Nat) :
    Honest behaviour (perform behaviour depth) := by
  induction depth with
  | zero =>
    refine ⟨?_, ?_, ?_⟩ <;> rintro m (⟨topic, l⟩ | ⟨topic, l⟩ | ⟨topic, payload⟩)
    all_goals first | rfl | trivial
  | succ depth ih =>
    refine ⟨?_, ?_, ?_⟩
    · rintro m (⟨topic, l⟩ | ⟨topic, l⟩ | ⟨topic, payload⟩) <;> rfl
    · rintro m (⟨topic, l⟩ | ⟨topic, l⟩ | ⟨topic, payload⟩)
      · rfl
      · rfl
      · exact (ih.callAll payload (m.hub.listeners topic) m).1
    · rintro m (⟨topic, l⟩ | ⟨topic, l⟩ | ⟨topic, payload⟩)
      · trivial
      · trivial
      · obtain ⟨-, hfaithful, hserves, hpayload⟩ :=
          ih.callAll payload (m.hub.listeners topic) m
        exact ⟨hserves, hpayload, hfaithful⟩

/-! ## The bound on the depth -/

/-- Where the first way to do actions refuses nothing, the second does the same. -/
def Extends (run run' : Moment → Action → Moment × Deed) : Prop :=
  ∀ m a, Event.refusal ∉ (run m a).2.events → run' m a = run m a

section

variable {run run' : Moment → Action → Moment × Deed} (h : Extends run run')
include h

theorem Extends.runScript (script : Script) (m : Moment)
    (hnone : Event.refusal ∉ Deed.allEvents (Hub.runScript run m script).2.1) :
    Hub.runScript run' m script = Hub.runScript run m script := by
  induction script generalizing m with
  | finish f => rfl
  | act a next ih =>
    simp only [Hub.runScript, Deed.allEvents, List.mem_append, not_or] at hnone
    simp only [Hub.runScript, h m a hnone.1, ih _ _ hnone.2]

theorem Extends.callListener (behaviour : Behaviour) (payload : Data) (m : Moment) (l : String)
    (hnone : Event.refusal ∉ (Hub.callListener run behaviour payload m l).2.events) :
    Hub.callListener run' behaviour payload m l = Hub.callListener run behaviour payload m l := by
  simp only [Hub.callListener, Call.events, List.mem_cons, not_or] at hnone
  simp only [Hub.callListener, h.runScript _ _ hnone.2]

theorem Extends.callAll (behaviour : Behaviour) (payload : Data) (ls : List String) (m : Moment)
    (hnone : Event.refusal ∉ Call.allEvents (Hub.callAll run behaviour payload m ls).2.1) :
    Hub.callAll run' behaviour payload m ls = Hub.callAll run behaviour payload m ls := by
  induction ls generalizing m with
  | nil => rfl
  | cons l ls ih =>
    cases hfailure : (Hub.callListener run behaviour payload m l).2.failure with
    | some f =>
      rw [callAll_of_failure ls hfailure, Call.allEvents, Call.allEvents,
        List.append_nil] at hnone
      have hl := h.callListener _ _ _ _ hnone
      rw [callAll_of_failure ls hfailure, callAll_of_failure ls (hl ▸ hfailure), hl]
    | none =>
      rw [callAll_of_fine ls hfailure, Call.allEvents, List.mem_append, not_or] at hnone
      have hl := h.callListener _ _ _ _ hnone.1
      rw [callAll_of_fine ls hfailure, callAll_of_fine ls (hl ▸ hfailure), hl, ih _ hnone.2]

end

/-- Publications may be allowed to stand deeper inside each other where none was refused. -/
theorem extends_perform (behaviour : Behaviour) (depth more : Nat) :
    Extends (perform behaviour depth) (perform behaviour (depth + more)) := by
  induction depth with
  | zero =>
    rintro m (⟨topic, l⟩ | ⟨topic, l⟩ | ⟨topic, payload⟩) hnone
    · cases more <;> rfl
    · cases more <;> rfl
    · exact absurd (List.mem_cons_of_mem _ (List.mem_singleton_self _)) hnone
  | succ depth ih =>
    rw [Nat.add_right_comm]
    rintro m (⟨topic, l⟩ | ⟨topic, l⟩ | ⟨topic, payload⟩) hnone
    · rfl
    · rfl
    · simp only [perform, Deed.events, List.mem_cons, not_or] at hnone
      simp only [perform, ih.callAll _ _ _ _ hnone.2]

/-! ## Publications -/

/-- **Publications under re-entrancy.** A publication calls the listeners that are on the list of
its topic when it starts, in order and with repetitions, up to the first that fails, whose failure
is its own; each of them does what it does, and the same holds of every publication inside. The
lists of all topics afterwards are those at the start with the changes that the listeners made, in
order, also where the publication failed; a change of one topic is none of another. The bound on
the depth makes no difference to a run that does not reach it. -/
theorem publish_under_reentrancy (behaviour : Behaviour) (depth : Nat) (m : Moment)
    (topic : String) (payload : Data) :
    let run := perform behaviour (depth + 1) m (.publish topic payload)
    (∃ calls failure, run.2 = .publish topic payload calls failure ∧
      Serves (m.hub.listeners topic) calls failure ∧ (∀ c ∈ calls, c.payload = payload) ∧
      Call.AllFaithful behaviour m.hub calls) ∧
    (∀ t, run.1.hub.listeners t =
      run.2.actions.foldl (editList t) (m.hub.listeners t)) ∧
    (∀ (hub : Hub) (t t' : String), t' ≠ t →
      (∀ l, (hub.subscribe t l).listeners t' = hub.listeners t') ∧
      ∀ l, (hub.unsubscribe t l).listeners t' = hub.listeners t') ∧
    (Event.refusal ∉ run.2.events →
      ∀ more, perform behaviour (depth + 1 + more) m (.publish topic payload) = run) := by
  intro run
  have honest := honest_perform behaviour (depth + 1)
  obtain ⟨hserves, hpayload, hfaithful⟩ := honest.faithful m (.publish topic payload)
  refine ⟨⟨_, _, rfl, hserves, hpayload, hfaithful⟩, ?_, ?_, ?_⟩
  · intro t
    rw [honest.hub m (.publish topic payload), listeners_replay]
    rfl
  · intro hub t t' hne
    refine ⟨?_, ?_⟩
    · intro l
      rw [listeners_subscribe, if_neg hne]
    · intro l
      rw [listeners_unsubscribe, if_neg hne]
  · intro hnone more
    exact extends_perform behaviour (depth + 1) more m _ hnone

-- A listener that leaves and publishes again: "two" is called in both publications, "three", which
-- came in between, in the inner one only.
example :
    let behaviour : Behaviour := fun _ l _ => if l = "one" then
      .ofActions none [.unsubscribe "t" (some "one"), .subscribe "t" "three", .publish "t" .null]
      else .finish none
    let run := perform behaviour 2 ⟨(Hub.subscribe {} "t" "one").subscribe "t" "two", 0⟩
      (.publish "t" .null)
    run.2.calls.map Prod.fst = ["one", "two", "three", "two"] ∧
      run.1.hub.listeners "t" = ["two", "three"] := by
  decide +kernel

end ApiDoc.Hub
