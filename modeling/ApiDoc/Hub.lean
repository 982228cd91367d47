import ApiDoc.Data.Basic
import ApiDoc.Table

/-!
# Notification hub

Listeners subscribe to topics, and what is published under a topic reaches its listeners in the
order of their subscriptions. A listener may use the hub while it is called: it may subscribe,
unsubscribe and publish, and it may fail, which ends the publication that called it. It need not do
the same in every call, and it may go on after a publication of its own that failed.

A run leaves a record of all that was done, each call inside the publication that made it. The
listeners that a publication calls are those on the list when it starts; what they do to the list
shows in later publications only.
-/

namespace ApiDoc

/-- For each topic, the listeners in the order of subscription. -/
structure Hub where
  topics : Table (List String) := .empty
deriving Repr, DecidableEq, Inhabited

namespace Hub

def listeners (hub : Hub) (topic : String) : List String :=
  (hub.topics.get? topic).getD []

def count (hub : Hub) (topic : String) : Nat :=
  (hub.listeners topic).length

/-- Add a listener at the end of a topic's list. -/
def subscribe (hub : Hub) (topic listener : String) : Hub :=
  ⟨hub.topics.insert topic (hub.listeners topic ++ [listener])⟩

/-- Remove the first subscription of a listener, or every subscription of the topic. -/
def unsubscribe (hub : Hub) (topic : String) (listener : Option String) : Hub :=
  match listener with
  | none => ⟨hub.topics.insert topic []⟩
  | some l => ⟨hub.topics.insert topic ((hub.listeners topic).erase l)⟩

theorem listeners_subscribe (hub : Hub) (topic topic' listener : String) :
    (hub.subscribe topic listener).listeners topic' =
      if topic' = topic then hub.listeners topic ++ [listener] else hub.listeners topic' := by
  by_cases h : topic' = topic <;> simp [subscribe, listeners, h]

theorem listeners_unsubscribe (hub : Hub) (topic topic' : String) (listener : Option String) :
    (hub.unsubscribe topic listener).listeners topic' =
      if topic' = topic then
        match listener with
        | none => []
        | some l => (hub.listeners topic).erase l
      else hub.listeners topic' := by
  cases listener <;> by_cases h : topic' = topic <;> simp [unsubscribe, listeners, h]

inductive Action where
  | subscribe (topic listener : String)
  | unsubscribe (topic : String) (listener : Option String)
  | publish (topic : String) (payload : Data)
deriving Repr, Inhabited

def Action.topic : Action → String
  | subscribe t _ => t
  | unsubscribe t _ => t
  | publish t _ => t

inductive Failure where
  | raised (message : String)
  /-- Publications inside publications without end. -/
  | tooDeep
deriving Repr, DecidableEq, Inhabited

/-! ## Listeners -/

/-- What a listener does in one call: actions one after the other, each chosen with the knowledge
of how the one before it ended, and at last it returns or fails. -/
inductive Script where
  /-- Fail, or return. -/
  | finish (failure : Option Failure)
  | act (a : Action) (next : Option Failure → Script)
deriving Inhabited

/-- The script of given actions that goes on as long as none of them fails. -/
def Script.ofActions (raises : Option String) : List Action → Script
  | [] => .finish (raises.map .raised)
  | a :: as => .act a fun
    | none => ofActions raises as
    | some f => .finish (some f)

/-- What the listeners do. It may depend on all that happened before, for which the number of the
calls so far stands. -/
abbrev Behaviour := (called : Nat) → (listener : String) → (payload : Data) → Script

/-! ## Records -/

mutual

/-- Something that was done with a hub, and what came of it. -/
inductive Deed where
  | subscribe (topic listener : String)
  | unsubscribe (topic : String) (listener : Option String)
  /-- A publication, with the calls that it made and the failure that ended it. -/
  | publish (topic : String) (payload : Data) (calls : List Call) (failure : Option Failure)
  /-- A publication too deep inside others to be begun. -/
  | refused (topic : String) (payload : Data)

/-- A call of a listener, with what the listener did and the failure that it ended with. -/
inductive Call where
  | mk (listener : String) (payload : Data) (deeds : List Deed) (failure : Option Failure)

end

def Deed.failure : Deed → Option Failure
  | subscribe _ _ => none
  | unsubscribe _ _ => none
  | publish _ _ _ failure => failure
  | refused _ _ => some .tooDeep

def Deed.action : Deed → Action
  | subscribe topic listener => .subscribe topic listener
  | unsubscribe topic listener => .unsubscribe topic listener
  | publish topic payload _ _ => .publish topic payload
  | refused topic payload => .publish topic payload

namespace Call

def listener : Call → String
  | mk listener _ _ _ => listener

def payload : Call → Data
  | mk _ payload _ _ => payload

def deeds : Call → List Deed
  | mk _ _ deeds _ => deeds

def failure : Call → Option Failure
  | mk _ _ _ failure => failure

end Call

/-! ## Runs -/

/-- A hub in use. -/
structure Moment where
  hub : Hub
  /-- How many calls there have been so far. -/
  called : Nat := 0
deriving Repr, DecidableEq, Inhabited

section

variable (perform : Moment → Action → Moment × Deed)

/-- Follow a script to its end: what was done, and the failure at the end. -/
def runScript : Moment → Script → Moment × List Deed × Option Failure
  | m, .finish failure => (m, [], failure)
  | m, .act a next =>
    let (m, deed) := perform m a
    let (m, deeds, failure) := runScript m (next deed.failure)
    (m, deed :: deeds, failure)

def callListener (behaviour : Behaviour) (payload : Data) (m : Moment) (listener : String) :
    Moment × Call :=
  let script := behaviour m.called listener payload
  let (m, deeds, failure) := runScript perform { m with called := m.called + 1 } script
  (m, .mk listener payload deeds failure)

/-- Call listeners one after the other, up to the first that fails. -/
def callAll (behaviour : Behaviour) (payload : Data) :
    Moment → List String → Moment × List Call × Option Failure
  | m, [] => (m, [], none)
  | m, l :: ls =>
    let (m, call) := callListener perform behaviour payload m l
    match call.failure with
    | some failure => (m, [call], some failure)
    | none =>
      let (m, calls, failure) := callAll behaviour payload m ls
      (m, call :: calls, failure)

end

/-- Do an action. Publications may stand inside each other up to `depth` deep. -/
def perform (behaviour : Behaviour) : (depth : Nat) → Moment → Action → Moment × Deed
  | _, m, .subscribe topic l => ({ m with hub := m.hub.subscribe topic l }, .subscribe topic l)
  | _, m, .unsubscribe topic l =>
    ({ m with hub := m.hub.unsubscribe topic l }, .unsubscribe topic l)
  | 0, m, .publish topic payload => (m, .refused topic payload)
  | depth + 1, m, .publish topic payload =>
    let (m, calls, failure) :=
      callAll (perform behaviour depth) behaviour payload m (m.hub.listeners topic)
    (m, .publish topic payload calls failure)

/-! ## Views of a record -/

inductive Event where
  | call (listener : String) (payload : Data)
  | action (a : Action)
  /-- The publication just begun was refused. -/
  | refusal
deriving Repr, Inhabited

mutual

def Deed.events : Deed → List Event
  | .subscribe topic l => [.action (.subscribe topic l)]
  | .unsubscribe topic l => [.action (.unsubscribe topic l)]
  | .publish topic payload calls _ => .action (.publish topic payload) :: Call.allEvents calls
  | .refused topic payload => [.action (.publish topic payload), .refusal]

def Call.events : Call → List Event
  | .mk l payload deeds _ => .call l payload :: Deed.allEvents deeds

def Call.allEvents : List Call → List Event
  | [] => []
  | c :: cs => c.events ++ Call.allEvents cs

def Deed.allEvents : List Deed → List Event
  | [] => []
  | d :: ds => d.events ++ Deed.allEvents ds

end

def Event.call? : Event → Option (String × Data)
  | call l payload => some (l, payload)
  | _ => none

def Event.action? : Event → Option Action
  | action a => some a
  | _ => none

/-- The calls of a run, in order, those inside other calls among them. -/
def Deed.calls (d : Deed) : List (String × Data) :=
  d.events.filterMap Event.call?

/-- The actions of a run, in order, those of the listeners among them. -/
def Deed.actions (d : Deed) : List Action :=
  d.events.filterMap Event.action?

end Hub

end ApiDoc
