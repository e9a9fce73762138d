import Chronolog.Lib.Reachable
import Chronolog.Rpc.Responses

/-!
# Streams of answers

A stream answers once when it is first pulled, and then once for each event of the node that it is
subscribed to. It subscribes when it is pulled again, and only to events after the revision of that time:
what happened since the reads of the first answer is not announced to it.

The consumer pulls until the stream waits for an event. The last answer is that of the node as it is then
if every change since the reads of the first answer was followed by an event to which the stream was
subscribed (`getLast?_received`).
-/

namespace Chronolog.Rpc

open Relation

/-! ## Requests -/

/-- The requests that are answered with a stream, from no revision on. -/
inductive StreamRequest
  | outcome (groupId transactionId : String)
  | settlementEvidence (groupId transactionId : String)
  | status (groupId : Option String)
  | replicationStatus (groupId : String)
  deriving DecidableEq

inductive StreamElement
  | outcome (outcome : TransactionOutcome)
  | settlementEvidence (evidence : RpcSettlementEvidence)
  | status (status : RpcNodeStatus)
  | replicationStatus (status : ReplicationStatus)
  deriving DecidableEq

namespace StreamRequest

/-- The number of times at which a call for an element reads the node. -/
def reads : StreamRequest → ℕ
  | outcome _ _ => 3
  | settlementEvidence _ _ => 7
  | status _ => 5
  | replicationStatus _ => 4

/-- The element of a stream, from the states of the node that were read for it. -/
def element (localeCompare : String → String → Bool) :
    StreamRequest → List NodeView → Except RpcError StreamElement
  | outcome groupId transactionId, [before, asked, after] =>
    (getOutcome localeCompare groupId transactionId before asked after).map .outcome
  | settlementEvidence groupId transactionId, [first, second, third, before, asked, after, last] =>
    (getSettlementEvidence localeCompare groupId transactionId first second third before asked after
      last).map .settlementEvidence
  | status groupId, [first, second, third, before, asked] =>
    (getStatus localeCompare groupId first second third before asked).map .status
  | replicationStatus groupId, [first, second, third, last] =>
    (getReplicationStatus localeCompare groupId first second third last).map .replicationStatus
  -- There are as many reads as the request has.
  | _, _ => .error (.thrown "")

end StreamRequest

/-! ## Streams -/

/-- A subscription to the events of the node. -/
structure Subscription where
  /-- Events up to this revision are passed over. -/
  after : Int
  /-- The revisions of the events that are queued. -/
  values : List Int
  closed : Bool := false
  deriving DecidableEq

/-- How far a stream is. -/
inductive Generator
  | idle
  /-- The node is read for an element. -/
  | reading (states : List NodeView)
  /-- An element was handed out, and the consumer has not pulled again. -/
  | suspended
  /-- The next event is looked for. -/
  | looping
  | ended

/-- The node, a stream and its consumer. -/
structure Stream where
  node : NodeView
  /-- The revision of the last event. -/
  latest : Option Int
  generator : Generator := .idle
  subscription : Option Subscription := none
  /-- The pulls that were not answered yet. -/
  pulls : ℕ := 0
  received : List StreamElement := []
  /-- Has the node changed since the first read without an event, to which the stream was subscribed, at
      or after the change? -/
  unannounced : Bool := false

namespace Stream

/-- Has the first element been asked for? -/
def begun (s : Stream) : Bool :=
  match s.generator with
  | .idle => false
  | _ => true

def subscribed (s : Stream) : Bool := s.subscription.any fun subscription => !subscription.closed

/-- The node changes without an event. -/
def change (node : NodeView) (s : Stream) : Stream :=
  { s with node, unannounced := s.unannounced || s.begun }

/-- The node emits an event, which is queued for the stream if it is subscribed. -/
def emit (s : Stream) : Stream :=
  let revision := max (s.node.revision + 1) s.node.control.sequence
  { s with
    node := { s.node with revision }
    latest := some revision
    subscription := s.subscription.map fun subscription =>
      if subscription.closed then subscription
      else { subscription with values := subscription.values ++ [revision] }
    unannounced := s.begun && !s.subscribed }

/-- The stream subscribes to the events after the revision of the node. The last event is queued. -/
def subscribe (s : Stream) : Stream :=
  { s with
    generator := .looping
    subscription := some { after := s.node.revision, values := s.latest.toList } }

end Stream

section

variable (localeCompare : String → String → Bool) (request : StreamRequest)

/-- A step of the node, the stream or its consumer. -/
inductive StreamStep :
    Stream → Stream → Prop
  | change {s : Stream} (node : NodeView) (hrevision : node.revision = s.node.revision) :
      StreamStep s (s.change node)
  | emit {s : Stream} : StreamStep s s.emit
  | pull {s : Stream} : StreamStep s { s with pulls := s.pulls + 1 }
  | start {s : Stream} (hidle : s.generator = .idle) (hpulls : 0 < s.pulls) :
      StreamStep s { s with generator := .reading [s.node] }
  | read {s : Stream} {states : List NodeView} (hreading : s.generator = .reading states)
      (hlength : states.length < request.reads) :
      StreamStep s { s with generator := .reading (states ++ [s.node]) }
  | yield {s : Stream} {states : List NodeView} {element : StreamElement}
      (hreading : s.generator = .reading states) (hlength : states.length = request.reads)
      (helement : request.element localeCompare states = .ok element) :
      StreamStep s
        { s with
          generator := .suspended
          received := s.received ++ [element]
          pulls := s.pulls - 1 }
  -- The call for an element fails, at whichever read.
  | throw {s : Stream} {states : List NodeView} (hreading : s.generator = .reading states) :
      StreamStep s { s with generator := .ended, pulls := s.pulls - 1 }
  | subscribe {s : Stream} (hsuspended : s.generator = .suspended) (hpulls : 0 < s.pulls)
      (hnew : s.subscription = none) : StreamStep s s.subscribe
  | resume {s : Stream} (hsuspended : s.generator = .suspended) (hpulls : 0 < s.pulls)
      (hold : s.subscription.isSome) :
      StreamStep s { s with generator := .looping }
  -- An event leads to another element if it is after the revision of the subscription.
  | take {s : Stream} {after revision : Int} {rest : List Int} {closed : Bool}
      (hlooping : s.generator = .looping)
      (hsubscription : s.subscription = some ⟨after, revision :: rest, closed⟩) :
      StreamStep s
        { s with
          generator := if after < revision then .reading [s.node] else .looping
          subscription := some ⟨after, rest, closed⟩ }
  -- The node is closed, or the call is aborted.
  | close {s : Stream} :
      StreamStep s
        { s with subscription := s.subscription.map fun subscription =>
                   { subscription with closed := true } }
  | finish {s : Stream} {after : Int} (hlooping : s.generator = .looping)
      (hsubscription : s.subscription = some ⟨after, [], true⟩) :
      StreamStep s { s with generator := .ended, pulls := s.pulls - 1 }

end

/-- The stream waits for an event. -/
def Stream.Waits (s : Stream) : Prop :=
  s.generator = .looping ∧ ∃ after, s.subscription = some ⟨after, [], false⟩

/-- The last element that the consumer received is the one that the node has now. -/
def Stream.Current (localeCompare : String → String → Bool) (request : StreamRequest) (s : Stream) :
    Prop :=
  ∃ element, request.element localeCompare (List.replicate request.reads s.node) = .ok element ∧
    s.received.getLast? = some element

/-- A stream that was not pulled yet. -/
structure Stream.Opened (s : Stream) : Prop where
  generator : s.generator = .idle
  subscription : s.subscription = none
  latest : ∀ revision ∈ s.latest, revision ≤ s.node.revision
  unannounced : s.unannounced = false

/-! ## What the consumer has received -/

/-- An event is queued that leads to another element. -/
def Stream.Queued (s : Stream) : Prop :=
  ∃ subscription ∈ s.subscription, ∃ revision ∈ subscription.values, subscription.after < revision

/-- What is read is the node as it is, or will be read again. -/
structure Stream.Informed (localeCompare : String → String → Bool) (request : StreamRequest)
    (s : Stream) : Prop where
  latest : ∀ revision ∈ s.latest, revision ≤ s.node.revision
  after : ∀ subscription ∈ s.subscription, subscription.after ≤ s.node.revision
  reading : s.unannounced = false → ∀ states, s.generator = .reading states →
    (∀ state ∈ states, state = s.node) ∨ s.Queued
  received : s.unannounced = false → (s.generator = .suspended ∨ s.generator = .looping) →
    s.Current localeCompare request ∨ s.Queued

namespace Stream

variable {localeCompare : String → String → Bool} {request : StreamRequest} {s s' : Stream}

theorem revision_lt_emit (s : Stream) : s.node.revision < s.emit.node.revision :=
  lt_max_of_lt_left (lt_add_one _)

/-- An event is queued for a stream that is subscribed. -/
theorem queued_emit (hafter : ∀ subscription ∈ s.subscription,
    subscription.after ≤ s.node.revision) (hsubscribed : s.subscribed) : s.emit.Queued := by
  cases hsub : s.subscription with
  | none => simp [subscribed, hsub] at hsubscribed
  | some subscription =>
    have hopen : subscription.closed = false := by simpa [subscribed, hsub] using hsubscribed
    refine ⟨{ subscription with values := subscription.values ++ [s.emit.node.revision] }, ?_,
      s.emit.node.revision, by simp, ?_⟩
    · simp [emit, hsub, hopen]
    · exact (hafter subscription hsub).trans_lt (revision_lt_emit s)

theorem Informed.change (h : s.Informed localeCompare request) {node : NodeView}
    (hrevision : node.revision = s.node.revision) :
    (s.change node).Informed localeCompare request := by
  -- A change that is not announced yet is one before the first read.
  have hidle : (s.change node).unannounced = false → s.generator = .idle := by
    simp only [Stream.change, Bool.or_eq_false_iff, begun]
    rintro ⟨-, hbegun⟩
    cases hgenerator : s.generator <;> simp [hgenerator] at hbegun ⊢
  refine ⟨?_, ?_, fun hannounced states hreading => ?_, fun hannounced hgenerator => ?_⟩
  · exact fun revision hlatest => (h.latest revision hlatest).trans hrevision.ge
  · exact fun subscription hsub => (h.after subscription hsub).trans hrevision.ge
  · cases (hidle hannounced).symm.trans hreading
  · rcases hgenerator with hgenerator | hgenerator <;>
      cases (hidle hannounced).symm.trans hgenerator

theorem Informed.emit (h : s.Informed localeCompare request) :
    s.emit.Informed localeCompare request := by
  have hqueued : s.emit.unannounced = false → s.generator = .idle ∨ s.emit.Queued := by
    intro hannounced
    cases hsubscribed : s.subscribed with
    | true => exact .inr (queued_emit h.after hsubscribed)
    | false =>
      simp only [Stream.emit, hsubscribed, Bool.not_false, begun] at hannounced
      cases hgenerator : s.generator <;> simp [hgenerator] at hannounced ⊢
  refine ⟨?_, ?_, fun hannounced states hreading => ?_, fun hannounced hgenerator => ?_⟩
  · rintro revision ⟨⟩
    exact le_rfl
  · intro subscription hsub
    simp only [Stream.emit, Option.mem_def, Option.map_eq_some_iff] at hsub
    obtain ⟨old, hold, rfl⟩ := hsub
    have hle := (h.after old hold).trans (revision_lt_emit s).le
    split_ifs <;> exact hle
  · rcases hqueued hannounced with hidle | hqueued
    · cases hidle.symm.trans hreading
    · exact .inr hqueued
  · rcases hqueued hannounced with hidle | hqueued
    · rcases hgenerator with hgenerator | hgenerator <;> cases hidle.symm.trans hgenerator
    · exact .inr hqueued

theorem Informed.yield (h : s.Informed localeCompare request) {states : List NodeView}
    {element : StreamElement} (hreading : s.generator = .reading states)
    (hlength : states.length = request.reads)
    (helement : request.element localeCompare states = .ok element) : { s with
      generator := .suspended
      received := s.received ++ [element]
      pulls := s.pulls - 1 : Stream }.Informed localeCompare request := by
  refine ⟨h.latest, h.after, fun _ _ hreading' => (by cases hreading'),
    fun hannounced _ => ?_⟩
  rcases h.reading hannounced states hreading with hstates | hqueued
  · have hreplicate : states = List.replicate request.reads s.node :=
      List.eq_replicate_iff.2 ⟨hlength, hstates⟩
    exact .inl ⟨element, hreplicate ▸ helement, by simp⟩
  · exact .inr hqueued

theorem Informed.take (h : s.Informed localeCompare request) {after revision : Int}
    {rest : List Int} {closed : Bool} (hlooping : s.generator = .looping)
    (hsubscription : s.subscription = some ⟨after, revision :: rest, closed⟩) : { s with
      generator := if after < revision then .reading [s.node] else .looping
      subscription := some ⟨after, rest, closed⟩ : Stream }.Informed localeCompare request := by
  refine ⟨h.latest, ?_, fun hannounced states hreading => ?_, fun hannounced hgenerator => ?_⟩
  · rintro subscription ⟨⟩
    exact h.after ⟨after, revision :: rest, closed⟩ hsubscription
  · split_ifs at hreading
    cases hreading
    exact .inl (by simp)
  · by_cases hlt : after < revision
    · simp [hlt] at hgenerator
    · rcases h.received hannounced (.inr hlooping) with
        hcurrent | ⟨subscription, hsub, found, hfound, hafter⟩
      · exact .inl hcurrent
      -- The event that was passed over is not the one that leads to another element.
      · obtain rfl : ⟨after, revision :: rest, closed⟩ = subscription :=
          Option.some.inj (hsubscription.symm.trans hsub)
        refine .inr ⟨_, rfl, found, ?_, hafter⟩
        rcases List.mem_cons.1 hfound with rfl | hrest
        · exact absurd hafter hlt
        · exact hrest

theorem Informed.close (h : s.Informed localeCompare request) :
    { s with subscription := s.subscription.map fun subscription =>
        { subscription with closed := true } : Stream }.Informed localeCompare request := by
  have hqueued : s.Queued → { s with subscription := s.subscription.map fun subscription =>
      { subscription with closed := true } : Stream }.Queued := by
    rintro ⟨subscription, hsub, found, hfound, hafter⟩
    exact ⟨_, Option.mem_map_of_mem _ hsub, found, hfound, hafter⟩
  refine ⟨h.latest, ?_, fun hannounced states hreading => ?_, fun hannounced hgenerator => ?_⟩
  · intro subscription hsub
    obtain ⟨old, hold, rfl⟩ := Option.mem_map.1 hsub
    exact h.after old hold
  · exact (h.reading hannounced states hreading).imp id hqueued
  · exact (h.received hannounced hgenerator).imp id hqueued

theorem Informed.step (h : s.Informed localeCompare request)
    (hstep : StreamStep localeCompare request s s') : s'.Informed localeCompare request := by
  cases hstep with
  | change node hrevision => exact h.change hrevision
  | emit => exact h.emit
  | pull => exact { h with }
  | start hidle _ =>
    refine ⟨h.latest, h.after, ?_, fun _ hgenerator => by simp at hgenerator⟩
    rintro - states ⟨⟩
    exact .inl (by simp)
  | @read states hreading _ =>
    refine ⟨h.latest, h.after, ?_, fun _ hgenerator => by simp at hgenerator⟩
    rintro hannounced _ ⟨⟩
    rcases h.reading hannounced states hreading with hstates | hqueued
    · refine .inl fun state hstate => ?_
      rcases List.mem_append.1 hstate with hstate | hstate
      · exact hstates state hstate
      · exact List.mem_singleton.1 hstate
    · exact .inr hqueued
  | yield hreading hlength helement => exact h.yield hreading hlength helement
  | throw _ => exact ⟨h.latest, h.after, fun _ _ h => (by cases h), fun _ h => by simp at h⟩
  | subscribe hsuspended _ hnew =>
    refine ⟨h.latest, ?_, fun _ _ h => (by cases h), fun hannounced _ => ?_⟩
    · rintro subscription ⟨⟩
      exact le_rfl
    · rcases h.received hannounced (.inl hsuspended) with hcurrent | ⟨_, hsub, -⟩
      · exact .inl hcurrent
      · simp [hnew] at hsub
  | resume hsuspended _ _ =>
    exact ⟨h.latest, h.after, fun _ _ h => (by cases h), fun hannounced _ =>
      h.received hannounced (.inl hsuspended)⟩
  | take hlooping hsubscription => exact h.take hlooping hsubscription
  | close => exact h.close
  | finish _ _ => exact ⟨h.latest, h.after, fun _ _ h => (by cases h), fun _ h => by simp at h⟩

theorem Opened.informed (h : s.Opened) : s.Informed localeCompare request where
  latest := h.latest
  after subscription hsub := by simp [h.subscription] at hsub
  reading _ states hreading := by cases h.generator.symm.trans hreading
  received _ hgenerator := by
    rcases hgenerator with hgenerator | hgenerator <;> cases h.generator.symm.trans hgenerator

/-- A consumer pulls until the stream waits. The last element it received is the one of the node if every
    change since the first read was followed by an event to which the stream was subscribed. -/
theorem getLast?_received {s₀ : Stream} (hopened : s₀.Opened)
    (hrun : ReflTransGen (StreamStep localeCompare request) s₀ s) (hwaits : s.Waits)
    (hannounced : s.unannounced = false) : s.Current localeCompare request := by
  have hinformed : s.Informed localeCompare request :=
    Reachable.invariant (fun h hstep => h.step hstep) hrun hopened.informed
  obtain ⟨hlooping, after, hsubscription⟩ := hwaits
  rcases hinformed.received hannounced (.inr hlooping) with hcurrent | ⟨subscription, hsub, hqueued⟩
  · exact hcurrent
  · cases hsubscription.symm.trans hsub
    simp at hqueued

namespace Late

/-- A stream of the outcome of a transaction. -/
def watched : StreamRequest := .outcome "AA" "t"

def opened : Stream where
  node := Waiting.node
  latest := none

/-- The answer while the transaction is pending. -/
def pending : StreamElement := .outcome { Waiting.response with eventSetRevision := "1" }

/-- The answer once it is materialized. -/
def accepted : StreamElement :=
  .outcome { Waiting.response with
    phase := .accepted, outcome := .accepted "BA" 0, materializedRevision := "1" }

/-- The node after the transaction was materialized. -/
def materialized : NodeView := { Waiting.materialized with revision := 2 }

theorem opened_opened : opened.Opened :=
  ⟨rfl, rfl, by simp [opened], rfl⟩

theorem element_materialized :
    watched.element (· ≤ ·) [materialized, materialized, materialized] = .ok accepted := by
  rfl

/-- The first element is received. -/
theorem run_first : ReflTransGen (StreamStep (· ≤ ·) watched) opened
    { opened with generator := .suspended, received := [pending] } := by
  refine .head .pull (.head (.start rfl Nat.one_pos) (.head (.read rfl (by decide)) ?_))
  exact .head (.read rfl (by decide)) (.single (.yield rfl rfl rfl))

/-- The transaction is materialized after the first element was read, and before the stream subscribes.
    The stream waits, and the consumer has not learnt of the outcome. -/
theorem not_current : ∃ s, ReflTransGen (StreamStep (· ≤ ·) watched) opened s ∧ s.Waits ∧
    ¬ s.Current (· ≤ ·) watched := by
  refine ⟨_, run_first.trans (.head (.change Waiting.materialized rfl) (.head .emit (.head .pull
    (.head (.subscribe rfl Nat.one_pos rfl) (.single (.take rfl rfl)))))), ⟨rfl, _, rfl⟩, ?_⟩
  rintro ⟨element, helement, hreceived⟩
  have haccepted : element = accepted := Except.ok.inj (helement.symm.trans element_materialized)
  have hpending : element = pending := (Option.some.inj hreceived).symm
  cases haccepted.symm.trans hpending

/-- It is materialized once the stream has subscribed. -/
theorem current_of_subscribed : ∃ s, ReflTransGen (StreamStep (· ≤ ·) watched) opened s ∧ s.Waits ∧
    s.received.length = 2 ∧ s.Current (· ≤ ·) watched := by
  have hsubscribed := run_first.trans (.head .pull (.single (.subscribe rfl Nat.one_pos rfl)))
  have hread := hsubscribed.trans (.head (.change Waiting.materialized rfl) (.head .emit
    (.head (.take rfl rfl) (.head (.read rfl (by decide)) (.single (.read rfl (by decide)))))))
  have hrun := hread.trans (.head (.yield rfl rfl element_materialized) (.head .pull
    (.single (.resume rfl Nat.one_pos rfl))))
  exact ⟨_, hrun, ⟨rfl, _, rfl⟩, rfl, getLast?_received opened_opened hrun ⟨rfl, _, rfl⟩ rfl⟩

end Late

end Stream

end Chronolog.Rpc
