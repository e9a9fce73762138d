import Chronolog.Lib.Reachable
import Chronolog.Lib.Text
import Chronolog.NodeCore.FeedForks

/-!
# How records come to a node

A node that starts loads the history of its transport, subscribes to it, and then ingests what it loaded
and what the subscription gives, side by side. The subscription gives the records that the transport had
when it was made, and then those of a bounded queue. A record that finds the queue full makes it fail:
what is queued is dropped and the subscription ends.

A node that has become idle has been handed every record of its transport if no record found the queue
full (`mem_handed_of_mem_history`).
-/

namespace Chronolog

open Relation KeyedMap List

/-! ## The queue of a subscription -/

/-- A queue with one reader. -/
structure AsyncQueue (α : Type) where
  maximumBufferedValues : ℕ := 1024
  values : List α := []
  /-- Does the reader wait for a value? -/
  waiting : Bool := false
  closed : Bool := false
  error : Option String := none

namespace AsyncQueue

variable {α : Type}

/-- The queue fails: what it holds is dropped. -/
def fail (error : String) (queue : AsyncQueue α) : AsyncQueue α :=
  if queue.closed then queue
  else { queue with closed := true, error := some error, values := [], waiting := false }

def close (queue : AsyncQueue α) : AsyncQueue α :=
  if queue.closed then queue else { queue with closed := true, waiting := false }

/-- What becomes of a value that is pushed. -/
inductive Pushed
  /-- It is given to the reader that waits. -/
  | resolved
  | buffered
  | refused
  deriving DecidableEq

def push (value : α) (queue : AsyncQueue α) : Pushed × AsyncQueue α :=
  if queue.closed then (.refused, queue)
  else if queue.waiting then (.resolved, { queue with waiting := false })
  else if queue.values.length < queue.maximumBufferedValues then
    (.buffered, { queue with values := queue.values ++ [value] })
  else (.refused, queue.fail "ASYNC_QUEUE_OVERFLOW")

end AsyncQueue

/-! ## The transport and the node -/

/-- How far the loop over a subscription is. -/
inductive Consumer
  /-- It has records from before the subscription left. -/
  | existing (rest : List TransportRecord)
  /-- It reads the queue. -/
  | live
  /-- The queue is closed. -/
  | ended
  deriving DecidableEq

/-- How far the start of a node is. -/
inductive StartStage
  | created
  /-- The history is loaded, and the cutoff of a validator is recovered from it. -/
  | recovering (history : List TransportRecord)
  /-- The node has subscribed. It still ingests the rest of the history. -/
  | started (draining : List TransportRecord)
  deriving DecidableEq

/-- A transport in memory and the node that it is for. -/
structure Intake where
  records : KeyedMap TransportRecord.id := .empty
  stage : StartStage := .created
  /-- The queue of the subscription of the node, once it has one. -/
  queue : AsyncQueue TransportRecord := { maximumBufferedValues := 4096 }
  consumer : Consumer := .ended
  /-- The records that were handed to `ingest`. -/
  handed : List TransportRecord := []
  /-- Has a record arrived while the queue of the subscription was full? -/
  overflowed : Bool := false

namespace Intake

/-- The records of the transport by author and sequence. -/
def localHistory (localeCompare : String → String → Bool) (s : Intake) : List TransportRecord :=
  s.records.values.mergeSort fun left right =>
    if left.author ≠ right.author then localeCompare left.author right.author
    else decide (left.sequence ≤ right.sequence)

/-- Is the queue of a subscription full, and does nobody wait for a value? -/
def full (s : Intake) : Bool :=
  match s.stage with
  | .started _ => !s.queue.closed && !s.queue.waiting &&
      decide (s.queue.maximumBufferedValues ≤ s.queue.values.length)
  | _ => false

/-- A new record is pushed to the subscription, which is closed if it refuses it. -/
def deliver (record : TransportRecord) (s : Intake) : Intake :=
  match s.stage with
  | .started _ =>
    match s.queue.push record with
    | (.resolved, queue) => { s with queue, handed := record :: s.handed }
    | (.buffered, queue) => { s with queue }
    | (.refused, queue) => { s with queue := queue.close }
  | _ => s

/-- The transport receives a record. -/
def receive (record : TransportRecord) (s : Intake) : Intake :=
  if s.records.has record.id then s
  else
    { s with records := s.records.put record, overflowed := s.overflowed || s.full }.deliver record

/-- The loop over the subscription asks the queue for a record: it gets the first one, or the end, or
    it waits. -/
def nextQueued (s : Intake) : Intake :=
  match s.queue.values with
  | record :: rest =>
    { s with
      consumer := .live
      queue := { s.queue with values := rest }
      handed := record :: s.handed }
  | [] =>
    if s.queue.closed then { s with consumer := .ended }
    else { s with consumer := .live, queue := { s.queue with waiting := true } }

/-- The loop asks for a record. It does so in one turn, so no record arrives between the last one from
    before the subscription and the question to the queue. -/
def next (s : Intake) : Intake :=
  match s.consumer with
  | .existing (record :: rest) =>
    { s with consumer := .existing rest, handed := record :: s.handed }
  | .existing [] | .live => s.nextQueued
  | .ended => s

/-- The next record of the history that was loaded is ingested. -/
def drainHistory (s : Intake) : Intake :=
  match s.stage with
  | .started (record :: rest) => { s with stage := .started rest, handed := record :: s.handed }
  | _ => s

section

variable (localeCompare : String → String → Bool) (history : List TransportRecord) (s : Intake)

/-- The node subscribes, after it has loaded the history. -/
def subscribe : Intake :=
  { s with
    stage := .started history
    queue := { maximumBufferedValues := 4096 }
    consumer := .existing (s.localHistory localeCompare) }

/-- The turn in which the node subscribes: `#consume` asks for a record before it awaits anything,
    and then the first record of the history is ingested. -/
def startConsuming : Intake :=
  (s.subscribe localeCompare history).next.drainHistory

end

end Intake

open Intake in
section

variable (localeCompare : String → String → Bool)

/-- A turn of the transport or of the node. -/
inductive IntakeStep : Intake → Intake → Prop
  | receive {s : Intake} (record : TransportRecord) :
      IntakeStep s (s.receive record)
  | load {s : Intake} (hstage : s.stage = .created) :
      IntakeStep s { s with stage := .recovering (s.localHistory localeCompare) }
  | start {s : Intake} {history : List TransportRecord} (hstage : s.stage = .recovering history) :
      IntakeStep s (s.startConsuming localeCompare history)
  | drain {s : Intake} : IntakeStep s s.drainHistory
  -- The loop has ingested the record that it got, and asks for another one.
  | consume {s : Intake} (hwaiting : s.queue.waiting = false) : IntakeStep s s.next
  -- The node ingests a record that it has published or tries again.
  | again {s : Intake} {record : TransportRecord} (hrecord : record ∈ s.records.values) :
      IntakeStep s { s with handed := record :: s.handed }

end

/-- The node has started and has nothing left to ingest. -/
structure Intake.Idle (s : Intake) : Prop where
  stage : s.stage = .started []
  consumer : s.consumer = .live ∧ s.queue.waiting = true ∨ s.consumer = .ended

/-! ## Where a record is -/

/-- A record was handed to the node, or the loop over the subscription has it left. -/
def Intake.Reaches (s : Intake) (record : TransportRecord) : Prop :=
  record ∈ s.handed ∨ record ∈ s.queue.values ∨ ∃ rest, s.consumer = .existing rest ∧ record ∈ rest

/-- No record is lost once the node has subscribed, unless one found the queue full. -/
structure Intake.Complete (s : Intake) : Prop where
  waiting : s.queue.waiting = true → s.queue.values = []
  reaches : ∀ draining, s.stage = .started draining → s.overflowed = false →
    s.queue.closed = false ∧ s.consumer ≠ .ended ∧ ∀ record ∈ s.records.values, s.Reaches record

namespace Intake

variable {localeCompare : String → String → Bool} {s s' : Intake} {record : TransportRecord}

theorem Reaches.mono (h : s.Reaches record)
    (hvalues : ∀ r ∈ s.queue.values, r ∈ s'.handed ∨ r ∈ s'.queue.values)
    (hconsumer : s'.consumer = s.consumer) (hhanded : ∀ r ∈ s.handed, r ∈ s'.handed) :
    s'.Reaches record := by
  rcases h with h | h | ⟨rest, hrest, h⟩
  · exact .inl (hhanded _ h)
  · exact (hvalues _ h).imp id .inl
  · exact .inr (.inr ⟨rest, hconsumer.trans hrest, h⟩)

/-- A new record reaches the node if the queue takes it. -/
theorem Complete.push {draining : List TransportRecord} (h : s.Complete)
    (hstage : s.stage = .started draining) (hwaiting : s'.queue.waiting = false)
    (hrecords : s'.records = s.records.put record) (hclosed : s'.queue.closed = s.queue.closed)
    (hconsumer : s'.consumer = s.consumer)
    (hoverflowed : s.overflowed = true → s'.overflowed = true)
    (hhanded : ∀ r ∈ s.handed, r ∈ s'.handed) (hvalues : ∀ r ∈ s.queue.values, r ∈ s'.queue.values)
    (hreaches : s'.Reaches record) : s'.Complete := by
  refine ⟨fun hwaiting' => by simp [hwaiting] at hwaiting', fun _ _ hfits => ?_⟩
  obtain ⟨hopen, hlive, hall⟩ := h.reaches draining hstage (by
    by_contra hover
    simp [hoverflowed (by simpa using hover)] at hfits)
  refine ⟨hclosed.trans hopen, fun hended => hlive (hconsumer.symm.trans hended), fun r hr => ?_⟩
  rw [hrecords] at hr
  rcases mem_values_put hr with rfl | hr
  · exact hreaches
  · exact (hall r hr).mono (fun r hr => .inr (hvalues r hr)) hconsumer hhanded

theorem Complete.receive (h : s.Complete) (record : TransportRecord) :
    (s.receive record).Complete := by
  unfold Intake.receive
  split_ifs with hknown
  · exact h
  unfold deliver
  cases hstage : s.stage with
  | created => exact ⟨h.waiting, fun _ hstarted => by simp at hstarted⟩
  | recovering history => exact ⟨h.waiting, fun _ hstarted => by simp at hstarted⟩
  | started draining =>
    by_cases hclosed : s.queue.closed = true
    · simp only [AsyncQueue.push, if_pos hclosed, AsyncQueue.close]
      refine ⟨h.waiting, fun _ _ hfits => ?_⟩
      simp only [Bool.or_eq_false_iff] at hfits
      cases (h.reaches draining hstage hfits.1).1.symm.trans hclosed
    by_cases hwaits : s.queue.waiting = true
    · simp only [AsyncQueue.push, if_neg hclosed, if_pos hwaits]
      exact h.push hstage rfl rfl rfl rfl (fun hover => by simp [hover])
        (fun _ hr => mem_cons_of_mem _ hr) (fun _ hr => hr) (.inl mem_cons_self)
    by_cases hlength : s.queue.values.length < s.queue.maximumBufferedValues
    · simp only [AsyncQueue.push, if_neg hclosed, if_neg hwaits, if_pos hlength]
      exact h.push hstage (by simpa using hwaits) rfl rfl rfl (fun hover => by simp [hover])
        (fun _ hr => hr) (fun _ hr => mem_append_left _ hr)
        (.inr (.inl (mem_append_right _ mem_cons_self)))
    · simp only [AsyncQueue.push, if_neg hclosed, if_neg hwaits, if_neg hlength, AsyncQueue.fail,
        AsyncQueue.close]
      refine ⟨fun hwaiting => by simp at hwaiting, fun _ _ hfits => ?_⟩
      simp [full, hstage, hclosed, hwaits, Nat.le_of_not_lt hlength] at hfits

theorem Complete.nextQueued (h : s.Complete) (hwaiting : s.queue.waiting = false)
    (hconsumer : ∀ rest, s.consumer = .existing rest → rest = []) : s.nextQueued.Complete := by
  have hreaches (r) (hr : s.Reaches r) : r ∈ s.handed ∨ r ∈ s.queue.values := by
    rcases hr with hr | hr | ⟨rest, hrest, hr⟩
    · exact .inl hr
    · exact .inr hr
    · rw [hconsumer rest hrest] at hr
      cases hr
  unfold Intake.nextQueued
  split
  next record rest hvalues =>
    refine ⟨fun hwaits => absurd (hwaiting.symm.trans hwaits) Bool.false_ne_true,
      fun _ hstage hfits => ?_⟩
    obtain ⟨hopen, -, hall⟩ := h.reaches _ hstage hfits
    refine ⟨hopen, by simp, fun r hr => ?_⟩
    rcases hreaches r (hall r hr) with hr | hr
    · exact .inl (mem_cons_of_mem _ hr)
    · rw [hvalues] at hr
      rcases mem_cons.1 hr with rfl | hr
      · exact .inl mem_cons_self
      · exact .inr (.inl hr)
  next hvalues =>
    split_ifs with hclosed
    · refine ⟨h.waiting, fun _ hstage hfits => ?_⟩
      cases (h.reaches _ hstage hfits).1.symm.trans hclosed
    · refine ⟨fun _ => hvalues, fun _ hstage hfits => ?_⟩
      obtain ⟨hopen, -, hall⟩ := h.reaches _ hstage hfits
      refine ⟨hopen, by simp, fun r hr => ?_⟩
      exact (hreaches r (hall r hr)).imp id .inl

/-- Asking for a record loses none. -/
theorem Complete.next (h : s.Complete) (hwaiting : s.queue.waiting = false) : s.next.Complete := by
  unfold Intake.next
  split
  next record rest hconsumer =>
    refine ⟨h.waiting, fun _ hstage hfits => ?_⟩
    obtain ⟨hopen, -, hall⟩ := h.reaches _ hstage hfits
    refine ⟨hopen, by simp, fun r hr => ?_⟩
    rcases hall r hr with hr | hr | ⟨rest', hrest, hr⟩
    · exact .inl (mem_cons_of_mem _ hr)
    · exact .inr (.inl hr)
    · cases hconsumer.symm.trans hrest
      rcases mem_cons.1 hr with rfl | hr
      · exact .inl mem_cons_self
      · exact .inr (.inr ⟨rest, rfl, hr⟩)
  next hconsumer => exact h.nextQueued hwaiting (by simp [hconsumer])
  next hconsumer => exact h.nextQueued hwaiting (by simp [hconsumer])
  next => exact h

theorem Complete.drainHistory (h : s.Complete) : s.drainHistory.Complete := by
  unfold Intake.drainHistory
  split
  next record rest hstage =>
    refine ⟨h.waiting, fun _ _ hfits => ?_⟩
    obtain ⟨hopen, hlive, hall⟩ := h.reaches _ hstage hfits
    exact ⟨hopen, hlive, fun r hr => (hall r hr).mono (fun _ hr => .inr hr) rfl
      fun _ hr => mem_cons_of_mem _ hr⟩
  next => exact h

/-- A new subscription has all records left. -/
theorem complete_subscribe (history : List TransportRecord) :
    (s.subscribe localeCompare history).Complete := by
  refine ⟨fun _ => rfl, fun _ _ _ => ⟨rfl, by simp [subscribe], fun record hrecord => ?_⟩⟩
  exact .inr (.inr ⟨_, rfl, mem_mergeSort.2 hrecord⟩)

theorem Complete.step (h : s.Complete) (hstep : IntakeStep localeCompare s s') : s'.Complete := by
  cases hstep with
  | receive record => exact h.receive record
  | load _ => exact ⟨h.waiting, fun _ hstarted => by simp at hstarted⟩
  | start _ => exact ((complete_subscribe _).next rfl).drainHistory
  | drain => exact h.drainHistory
  | consume hwaiting => exact h.next hwaiting
  | again _ =>
    refine ⟨h.waiting, fun _ hstage hfits => ?_⟩
    obtain ⟨hopen, hlive, hall⟩ := h.reaches _ hstage hfits
    exact ⟨hopen, hlive, fun r hr => (hall r hr).mono (fun _ hr => .inr hr) rfl
      fun _ hr => mem_cons_of_mem _ hr⟩

/-- A node that has become idle has been handed every record of its transport if no record arrived while
    the queue of its subscription was full. -/
theorem mem_handed_of_mem_history (hrun : ReflTransGen (IntakeStep localeCompare) {} s)
    (hidle : s.Idle) (hfits : s.overflowed = false)
    (hrecord : record ∈ s.localHistory localeCompare) : record ∈ s.handed := by
  have hcomplete : s.Complete :=
    Reachable.invariant (fun h hstep => h.step hstep) hrun ⟨by simp, by simp⟩
  obtain ⟨-, hlive, hall⟩ := hcomplete.reaches [] hidle.stage hfits
  rcases hidle.consumer with ⟨hconsumer, hwaiting⟩ | hended
  · rcases hall record (mem_mergeSort.1 hrecord) with hr | hr | ⟨rest, hrest, -⟩
    · exact hr
    · simp [hcomplete.waiting hwaiting] at hr
    · cases hconsumer.symm.trans hrest
  · exact absurd hended hlive

namespace Burst

/-- The records of a burst. -/
def arrival (k : ℕ) : TransportRecord := ⟨k.repr, "a", k + 1, none, some 0, []⟩

/-- The node has subscribed to an empty transport. It ingests the first record that arrived, and `k`
    further ones are queued. -/
structure Queued (k : ℕ) (s : Intake) : Prop where
  run : ReflTransGen (IntakeStep (· ≤ ·)) {} s
  stage : s.stage = .started []
  consumer : s.consumer = .live
  queue : s.queue =
    { maximumBufferedValues := 4096, values := (range k).map fun j => arrival (j + 1) }
  handed : s.handed = [arrival 0]
  records : ∀ record, record ∈ s.records.values ↔ ∃ j < k + 1, record = arrival j

/-- The node has subscribed to an empty transport, and waits for a record. -/
def subscribed : Intake where
  stage := .started []
  queue := { maximumBufferedValues := 4096, waiting := true }
  consumer := .live

theorem run_subscribed : ReflTransGen (IntakeStep (· ≤ ·)) {} subscribed := by
  have hempty (stage) : localHistory (· ≤ ·) { stage } = [] := mergeSort_nil
  have hstart : startConsuming (· ≤ ·) [] { stage := .recovering [] } = subscribed := by
    rw [startConsuming, subscribe, hempty]
    rfl
  have hload : IntakeStep (· ≤ ·) {} { stage := .recovering [] } := by
    rw [← hempty .created]
    exact .load rfl
  exact .head hload (hstart ▸ .single (.start rfl))

theorem queued_zero : ∃ s, Queued 0 s ∧ s.overflowed = false := by
  refine ⟨_, ⟨run_subscribed.tail (.receive (arrival 0)), rfl, rfl, rfl, rfl, fun record => ?_⟩, rfl⟩
  have hvalues : (subscribed.receive (arrival 0)).records.values = [arrival 0] := rfl
  simp [hvalues]

variable {k : ℕ}

theorem Queued.not_has (h : Queued k s) : s.records.has (arrival (k + 1)).id = false := by
  by_contra hhas
  obtain ⟨found, hget⟩ := OrdMap.has_iff.1 (eq_true_of_ne_false hhas)
  obtain ⟨j, hj, rfl⟩ := (h.records found).1 (mem_values_of_get? hget)
  have hid : (arrival j).id = (arrival (k + 1)).id := s.records.key_eq hget
  exact hj.ne (Text.repr_nat_injective hid)

theorem Queued.receive (h : Queued k s) (hk : k < 4096) (hfits : s.overflowed = false) :
    Queued (k + 1) (s.receive (arrival (k + 1))) ∧
      (s.receive (arrival (k + 1))).overflowed = false := by
  have hfull : s.full = false := by simpa [full, h.stage, h.queue] using hk
  have hreceive : s.receive (arrival (k + 1)) = { s with
      records := s.records.put (arrival (k + 1))
      queue :=
        { maximumBufferedValues := 4096, values := (range (k + 1)).map fun j => arrival (j + 1) }
      overflowed := false } := by
    simp [Intake.receive, h.not_has, deliver, h.stage, h.queue, AsyncQueue.push, hk, hfull, hfits,
      range_succ]
  refine ⟨?_, by rw [hreceive]⟩
  rw [hreceive]
  refine ⟨?_, h.stage, h.consumer, rfl, h.handed, fun record => ⟨fun hrecord => ?_, ?_⟩⟩
  · rw [← hreceive]
    exact h.run.tail (.receive (arrival (k + 1)))
  · rcases mem_values_put hrecord with rfl | hrecord
    · exact ⟨k + 1, Nat.lt_succ_self _, rfl⟩
    · obtain ⟨j, hj, rfl⟩ := (h.records record).1 hrecord
      exact ⟨j, Nat.lt_succ_of_lt hj, rfl⟩
  · rintro ⟨j, hj, rfl⟩
    rw [mem_values_iff]
    rcases Nat.lt_succ_iff_lt_or_eq.1 hj with hj | rfl
    · have hid : (arrival j).id ≠ (arrival (k + 1)).id :=
        fun hid => hj.ne (Text.repr_nat_injective hid)
      exact (get?_put_of_ne hid _).trans
        (mem_values_iff.1 ((h.records _).2 ⟨j, hj, rfl⟩))
    · exact get?_put_self _ _

theorem exists_queued (hk : k ≤ 4096) : ∃ s, Queued k s ∧ s.overflowed = false := by
  induction k with
  | zero => exact queued_zero
  | succ k ih =>
    obtain ⟨s, hs, hfits⟩ := ih (Nat.le_of_succ_le hk)
    exact ⟨_, hs.receive hk hfits⟩

/-- A burst of 4098 records. The node gets the first one, the next 4096 are queued, and the last one
    makes the queue fail. The node becomes idle, and was handed the first one only. -/
theorem exists_not_handed : ∃ s, ReflTransGen (IntakeStep (· ≤ ·)) {} s ∧ s.Idle ∧
    (∀ j < 4098, arrival j ∈ s.localHistory (· ≤ ·)) ∧ s.handed = [arrival 0] := by
  obtain ⟨s, hs, -⟩ := exists_queued le_rfl
  have hreceive : s.receive (arrival 4097) = { s with
      records := s.records.put (arrival 4097)
      queue := { maximumBufferedValues := 4096, closed := true, error := some "ASYNC_QUEUE_OVERFLOW" }
      overflowed := true } := by
    simp [Intake.receive, hs.not_has, deliver, hs.stage, hs.queue, AsyncQueue.push, AsyncQueue.fail,
      AsyncQueue.close, full]
  have hrun := hs.run.tail (.receive (arrival 4097))
  rw [hreceive] at hrun
  have hended := hrun.tail (.consume rfl)
  simp only [Intake.next, nextQueued, hs.consumer, if_true] at hended
  refine ⟨_, hended, ⟨hs.stage, .inr rfl⟩, fun j hj => mem_mergeSort.2 ?_, hs.handed⟩
  rw [mem_values_iff]
  rcases Nat.lt_succ_iff_lt_or_eq.1 hj with hj | rfl
  · have hid : (arrival j).id ≠ (arrival 4097).id := fun hid => hj.ne (Text.repr_nat_injective hid)
    exact (get?_put_of_ne hid _).trans (mem_values_iff.1 ((hs.records _).2 ⟨j, hj, rfl⟩))
  · exact get?_put_self _ _

/-- Of two records the first one is given to the loop that waits, and the second one is queued. -/
theorem exists_handed : ∃ s, ReflTransGen (IntakeStep (· ≤ ·)) {} s ∧ s.Idle ∧
    arrival 1 ∈ s.localHistory (· ≤ ·) ∧ arrival 1 ∈ s.handed := by
  obtain ⟨s, hs, hfits⟩ := @exists_queued 1 (by decide)
  have hrun := (hs.run.tail (.consume (by rw [hs.queue]))).tail (.consume (by
    simp [Intake.next, nextQueued, hs.consumer, hs.queue]))
  simp only [Intake.next, nextQueued, hs.consumer, hs.queue] at hrun
  have hrecord : arrival 1 ∈ s.localHistory (· ≤ ·) :=
    mem_mergeSort.2 ((hs.records _).2 ⟨1, Nat.lt_succ_self 1, rfl⟩)
  exact ⟨_, hrun, ⟨hs.stage, .inl ⟨rfl, rfl⟩⟩, hrecord,
    mem_handed_of_mem_history hrun ⟨hs.stage, .inl ⟨rfl, rfl⟩⟩ hfits hrecord⟩

end Burst

end Intake

end Chronolog
