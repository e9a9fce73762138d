import Chronolog.Lib.OrdMap
import Chronolog.Lib.Reachable

/-!
# Drafts

A client builds a transaction in a draft and publishes it. The calls for a draft take turns
(`Service.turns`), and a call that publishes is remembered under the idempotency key of its request, so
that the same request again joins it. What the node does with a candidate takes several steps: it appends
a record to the feed, and the call returns or fails afterwards.

* A call that fails puts the draft back, whether its record was appended or not, so the next call
  publishes it once more. One record at most is appended for the draft if no call fails after its own
  (`length_feed_le_one`).
* A draft can be cancelled out of turn, while a call publishes it. No record of a cancelled draft is in
  the feed, then or later, exactly if no call was publishing it and none had failed after its record
  (`feed_cancel_eq_nil_iff`).
-/

namespace Chronolog.Rpc

open Relation List

/-- The states of a draft. -/
inductive DraftState
  | open | busy | publishing | cancelled
  deriving DecidableEq

structure Draft where
  owner : String
  state : DraftState
  expiresAtMonotonic : Int
  deriving DecidableEq

/-- What a call does with the draft in its turn. -/
inductive CallKind
  /-- It publishes the draft, under the idempotency key of the request. -/
  | publish (key : String)
  /-- It changes, validates or rebases the draft. -/
  | edit
  deriving DecidableEq

/-- The state that a call puts the draft in. -/
def CallKind.state : CallKind → DraftState
  | publish _ => .publishing
  | edit => .busy

/-- How far a call is. -/
inductive Progress
  | waiting
  /-- It has its turn. The node may have appended its record, if it publishes. -/
  | running (appended : Bool)
  deriving DecidableEq

/-- A call that has not ended. -/
structure Call where
  id : ℕ
  owner : String
  kind : CallKind
  progress : Progress
  deriving DecidableEq

/-- Whether the call publishes the draft right now. -/
def Call.publishing : Call → Bool
  | ⟨_, _, .publish _, .running _⟩ => true
  | _ => false

/-- The entry of an idempotency key. -/
structure Publication where
  /-- The draft that the request names. -/
  fingerprint : String
  expiresAt : Int
  deriving DecidableEq

/-- Why a request is refused. -/
inductive Refusal
  | alreadyExists | notFound | draftExpired | notOpen
  deriving DecidableEq

/-- The service, as far as it has to do with one draft. -/
structure Service where
  /-- The draft, while it is in the table of drafts. -/
  draft : Option Draft
  /-- The calls in the order of their turns. The first one is next, or has its turn. -/
  turns : List Call
  publications : OrdMap String Publication
  /-- The keys of calls that failed, whose entries are about to be removed. -/
  forgotten : List String
  /-- The calls whose records were appended to the feed. -/
  feed : List ℕ
  /-- The calls that failed after their records were appended. -/
  lost : List ℕ
  calls : ℕ
  now : Int
  deriving DecidableEq

namespace Service

/-- Drops the draft if it is open and has expired, and the entries of keys that have expired. -/
def prune (s : Service) : Service :=
  { s with
    draft := s.draft.filter fun draft =>
      !(decide (draft.state = .open) && decide (draft.expiresAtMonotonic ≤ s.now))
    publications := ⟨s.publications.entries.filter fun entry => s.now < entry.2.expiresAt,
      s.publications.nodup_keys.sublist (filter_sublist.map _)⟩ }

/-- Looks the draft up. An expired one is dropped, whatever its state. -/
def lookup (owner : String) (s : Service) : Except Refusal Draft × Service :=
  let s := s.prune
  match s.draft with
  | none => (.error .notFound, s)
  | some draft =>
    if draft.owner ≠ owner ∨ draft.state = .cancelled then (.error .notFound, s)
    else if draft.expiresAtMonotonic ≤ s.now then
      (.error .draftExpired, { s with draft := none })
    else (.ok draft, s)

/-- The key under which a call that publishes is remembered. -/
def publicationKey (owner groupId idempotencyKey : String) : String :=
  owner ++ "\x00" ++ groupId ++ "\x00" ++ idempotencyKey

section

variable (groupId draftId : String) (retentionTtlMs : Int)

/-- A call that publishes is put in the table under its key. -/
def remember (owner : String) (s : Service) : CallKind → Service
  | .publish key =>
    { s with publications := s.publications.set (publicationKey owner groupId key)
               { fingerprint := draftId, expiresAt := s.now + retentionTtlMs } }
  | .edit => s

/-- The key of a call that failed is to be removed. -/
def forget (owner : String) (s : Service) : CallKind → Service
  | .publish key => { s with forgotten := publicationKey owner groupId key :: s.forgotten }
  | .edit => s

/-- A request begins a call: the call waits for its turn, or fails at once. -/
def enqueue (owner : String) (kind : CallKind) (s : Service) : Except Refusal ℕ × Service :=
  match s.lookup owner with
  | (.error refusal, s) =>
    (.error refusal, forget groupId owner (remember groupId draftId retentionTtlMs owner s kind) kind)
  | (.ok _, s) =>
    (.ok s.calls, remember groupId draftId retentionTtlMs owner
      { s with turns := s.turns ++ [⟨s.calls, owner, kind, .waiting⟩], calls := s.calls + 1 } kind)

/-- A request to publish the draft joins the call under its key, if there is one. The result is the call
    that it waits for, if it began one. -/
def publishDraft (owner idempotencyKey : String) (s : Service) :
    Except Refusal (Option ℕ) × Service :=
  let s := s.prune
  match s.publications.get? (publicationKey owner groupId idempotencyKey) with
  | some existing =>
    if existing.fingerprint ≠ draftId then (.error .alreadyExists, s) else (.ok none, s)
  | none =>
    let (result, s) := enqueue groupId draftId retentionTtlMs owner (.publish idempotencyKey) s
    (result.map some, s)

end

/-- Cancels the draft, in whatever state it is. -/
def cancelDraft (owner : String) (s : Service) : Bool × Service :=
  match s.draft with
  | none => (false, s)
  | some draft => if draft.owner ≠ owner then (false, s) else (true, { s with draft := none })

/-- The draft in a state, if it is in the table. -/
def setState (state : DraftState) (s : Service) : Service :=
  { s with draft := s.draft.map fun draft => { draft with state } }

/-- A call ends its turn. The draft is open again, if it is in the table and was not cancelled. -/
def release (rest : List Call) (s : Service) : Service :=
  { s with
    turns := rest
    draft := s.draft.map fun draft =>
      if draft.state = .cancelled then draft else { draft with state := .open } }

end Service

open Service

section

variable (groupId draftId : String) (retentionTtlMs : Int)

/-- A step of the service. -/
inductive Step : Service → Service → Prop
  | publishDraft {s : Service} (owner key : String) :
      Step s
        (s.publishDraft groupId draftId retentionTtlMs owner key).2
  | editDraft {s : Service} (owner : String) :
      Step s
        (s.enqueue groupId draftId retentionTtlMs owner .edit).2
  | cancelDraft {s : Service} (owner : String) :
      Step s (s.cancelDraft owner).2
  -- A call gets its turn, and finds the draft open.
  | begin {s s' : Service} {call : Call} {rest : List Call} {draft : Draft}
      (hturns : s.turns = call :: rest) (hwaiting : call.progress = .waiting)
      (hlookup : s.lookup call.owner = (.ok draft, s')) (hopen : draft.state = .open) :
      Step s
        ({ s' with turns := { call with progress := .running false } :: rest }.setState
          call.kind.state)
  -- It finds the draft in another state.
  | notOpen {s s' : Service} {call : Call} {rest : List Call} {draft : Draft}
      (hturns : s.turns = call :: rest) (hwaiting : call.progress = .waiting)
      (hlookup : s.lookup call.owner = (.ok draft, s')) (hopen : draft.state ≠ .open) :
      Step s (forget groupId call.owner (s'.release rest) call.kind)
  -- It finds none.
  | notFound {s s' : Service} {call : Call} {rest : List Call} {refusal : Refusal}
      (hturns : s.turns = call :: rest) (hwaiting : call.progress = .waiting)
      (hlookup : s.lookup call.owner = (.error refusal, s')) :
      Step s (forget groupId call.owner (s'.release rest) call.kind)
  -- The node appends the record of the candidate.
  | append {s : Service} {id : ℕ} {owner key : String} {rest : List Call}
      (hturns : s.turns = ⟨id, owner, .publish key, .running false⟩ :: rest) :
      Step s
        { s with
          turns := ⟨id, owner, .publish key, .running true⟩ :: rest
          feed := s.feed ++ [id] }
  -- A call fails, in a check of its own or in the node.
  | fail {s : Service} {call : Call} {rest : List Call}
      (hturns : s.turns = call :: rest) (hrunning : call.progress = .running false) :
      Step s (forget groupId call.owner (s.release rest) call.kind)
  | failLate {s : Service} {call : Call} {rest : List Call}
      (hturns : s.turns = call :: rest) (hrunning : call.progress = .running true) :
      Step s
        { forget groupId call.owner (s.release rest) call.kind with lost := s.lost ++ [call.id] }
  -- The node returns, and the draft is taken out of the table.
  | publish {s : Service} {id : ℕ} {owner key : String} {rest : List Call}
      (hturns : s.turns = ⟨id, owner, .publish key, .running true⟩ :: rest) :
      Step s ({ s with draft := none }.release rest)
  | edit {s : Service} {id : ℕ} {owner : String} {rest : List Call}
      (hturns : s.turns = ⟨id, owner, .edit, .running false⟩ :: rest) :
      Step s (s.release rest)
  -- The entry of a key is removed, whichever call it is of by then.
  | forgetKey {s : Service} {key : String} (hkey : key ∈ s.forgotten) :
      Step s
        { s with
          forgotten := s.forgotten.erase key
          publications := s.publications.erase key }
  -- Another draft is published.
  | other {s : Service} (key : String) (publication : Publication) :
      Step s
        { s with publications := s.publications.set key publication }
  | tick {s : Service} (ms : ℕ) :
      Step s { s with now := s.now + ms }

end

/-- A draft was just created. -/
structure Created (s : Service) : Prop where
  isSome : s.draft.isSome
  state : ∀ draft ∈ s.draft, draft.state = .open
  turns : s.turns = []
  feed : s.feed = []
  lost : s.lost = []

/-- The service at some time after the draft was created. -/
def Reached (groupId draftId : String) (retentionTtlMs : Int) (s : Service) : Prop :=
  ∃ s₀, Created s₀ ∧ ReflTransGen (Step groupId draftId retentionTtlMs) s₀ s

/-! ### What a step does with the draft, the turns and the feed -/

namespace Service

variable {s s' : Service} {owner groupId draftId : String} {retentionTtlMs : Int} {kind : CallKind}

/-- Only the draft may differ, and it may only be gone. -/
structure Keeps (s s' : Service) : Prop where
  draft : s'.draft = s.draft ∨ s'.draft = none
  turns : s'.turns = s.turns
  feed : s'.feed = s.feed
  lost : s'.lost = s.lost

theorem keeps_prune (s : Service) : Keeps s s.prune where
  draft := by
    cases hdraft : s.draft with
    | none => exact .inl (by simp [prune, hdraft])
    | some draft =>
      simp only [prune, hdraft, Option.filter_some]
      split_ifs
      · exact .inl rfl
      · exact .inr rfl
  turns := rfl
  feed := rfl
  lost := rfl

theorem Keeps.trans {s'' : Service} (h : Keeps s s') (h' : Keeps s' s'') : Keeps s s'' where
  draft := h'.draft.elim (fun e => e ▸ h.draft) .inr
  turns := h'.turns.trans h.turns
  feed := h'.feed.trans h.feed
  lost := h'.lost.trans h.lost

/-- What is found is the draft in the table, and it stays there. -/
theorem lookup_eq_ok {draft : Draft} (h : s.lookup owner = (.ok draft, s')) :
    s' = s.prune ∧ s'.draft = some draft ∧ s.draft = some draft := by
  unfold lookup at h
  cases hdraft : s.prune.draft with
  | none => simp [hdraft] at h
  | some found =>
    simp only [hdraft] at h
    split_ifs at h
    · simp at h
    · simp at h
    · obtain ⟨rfl, rfl⟩ := h
      refine ⟨rfl, hdraft, ?_⟩
      rcases (keeps_prune s).draft with hkeep | hdrop
      · exact hkeep ▸ hdraft
      · simp [hdrop] at hdraft

theorem keeps_lookup (owner : String) (s : Service) : Keeps s (s.lookup owner).2 := by
  unfold lookup
  cases hdraft : s.prune.draft with
  | none => simpa [hdraft] using keeps_prune s
  | some found =>
    simp only [hdraft]
    split_ifs
    · exact keeps_prune s
    · exact (keeps_prune s).trans ⟨.inr rfl, rfl, rfl, rfl⟩
    · exact keeps_prune s

theorem keeps_remember : Keeps s (remember groupId draftId retentionTtlMs owner s kind) := by
  cases kind <;> exact ⟨.inl rfl, rfl, rfl, rfl⟩

theorem keeps_forget : Keeps s (forget groupId owner s kind) := by
  cases kind <;> exact ⟨.inl rfl, rfl, rfl, rfl⟩

@[simp]
theorem draft_remember :
    (remember groupId draftId retentionTtlMs owner s kind).draft = s.draft := by
  cases kind <;> rfl

@[simp]
theorem draft_forget : (forget groupId owner s kind).draft = s.draft := by
  cases kind <;> rfl

end Service

/-- What a step may do with the draft, the turns and the feed. -/
inductive Move (s s' : Service) : Prop
  | keep (h : Keeps s s')
  | enqueue (call : Call) (hwaiting : call.progress = .waiting) (hsome : s.draft.isSome)
      (hdraft : s'.draft = s.draft) (hturns : s'.turns = s.turns ++ [call])
      (hfeed : s'.feed = s.feed) (hlost : s'.lost = s.lost)
  | begin (call : Call) (rest : List Call) (draft : Draft) (hturns : s.turns = call :: rest)
      (hwaiting : call.progress = .waiting) (hdraft : s.draft = some draft) (hopen : draft.state = .open)
      (hdraft' : s'.draft = some { draft with state := call.kind.state })
      (hturns' : s'.turns = { call with progress := .running false } :: rest)
      (hfeed : s'.feed = s.feed) (hlost : s'.lost = s.lost)
  | append (call : Call) (rest : List Call) (hturns : s.turns = call :: rest)
      (hpublishing : call.publishing) (hrunning : call.progress = .running false)
      (hdraft : s'.draft = s.draft)
      (hturns' : s'.turns = { call with progress := .running true } :: rest)
      (hfeed : s'.feed = s.feed ++ [call.id]) (hlost : s'.lost = s.lost)
  | release (call : Call) (rest : List Call) (hturns : s.turns = call :: rest)
      (hdraft : s'.draft = (s.release rest).draft ∨ s'.draft = none) (hturns' : s'.turns = rest)
      (hfeed : s'.feed = s.feed)
      (hlost : s'.lost = s.lost ∧ (call.progress = .running true → s'.draft = none) ∨
        s'.lost = s.lost ++ [call.id] ∧ call.progress = .running true)

section

variable {groupId draftId : String} {retentionTtlMs : Int} {s s' : Service}

theorem Move.of_enqueue {s₀ : Service} (hkeeps : Keeps s s₀) (owner : String) (kind : CallKind) :
    Move s (s₀.enqueue groupId draftId retentionTtlMs owner kind).2 := by
  unfold Service.enqueue
  have hlookup := keeps_lookup owner s₀
  rcases h : s₀.lookup owner with ⟨_ | draft, s₁⟩
  · rw [h] at hlookup
    exact .keep (hkeeps.trans (hlookup.trans (keeps_remember.trans keeps_forget)))
  · obtain ⟨rfl, hpruned, hfound⟩ := lookup_eq_ok h
    have hsome : s.draft = some draft := by
      rcases hkeeps.draft with hkeep | hdrop
      · exact hkeep ▸ hfound
      · simp [hdrop] at hfound
    refine .enqueue ⟨s₀.prune.calls, owner, kind, .waiting⟩ rfl (by simp [hsome])
      (by simp [hpruned, hsome]) ?_ ?_ ?_
    · rw [keeps_remember.turns]
      exact congrArg (· ++ _) hkeeps.turns
    · rw [keeps_remember.feed]
      exact hkeeps.feed
    · rw [keeps_remember.lost]
      exact hkeeps.lost

theorem Move.of_publishDraft (owner key : String) :
    Move s (s.publishDraft groupId draftId retentionTtlMs owner key).2 := by
  unfold publishDraft
  dsimp only
  split
  · split_ifs <;> exact .keep (keeps_prune s)
  · exact Move.of_enqueue (keeps_prune s) owner _

/-- A call that did not get to run ends its turn. -/
theorem Move.of_refused {s₁ : Service} {call : Call} {rest : List Call}
    (hturns : s.turns = call :: rest) (hwaiting : call.progress = .waiting) (hkeeps : Keeps s s₁) :
    Move s (forget groupId call.owner (s₁.release rest) call.kind) := by
  refine .release call rest hturns ?_ keeps_forget.turns ?_ (.inl ⟨?_, by simp [hwaiting]⟩)
  · rcases hkeeps.draft with hkeep | hdrop
    · exact .inl (by simp [Service.release, hkeep])
    · exact .inr (by simp [Service.release, hdrop])
  · exact keeps_forget.feed.trans hkeeps.feed
  · exact keeps_forget.lost.trans hkeeps.lost

theorem Step.move (h : Step groupId draftId retentionTtlMs s s') : Move s s' := by
  cases h with
  | publishDraft owner key => exact Move.of_publishDraft owner key
  | editDraft owner => exact Move.of_enqueue ⟨.inl rfl, rfl, rfl, rfl⟩ owner _
  | cancelDraft owner =>
    unfold Service.cancelDraft
    split
    · exact .keep ⟨.inl rfl, rfl, rfl, rfl⟩
    · split_ifs
      · exact .keep ⟨.inl rfl, rfl, rfl, rfl⟩
      · exact .keep ⟨.inr rfl, rfl, rfl, rfl⟩
  | begin hturns hwaiting hlookup hopen =>
    obtain ⟨rfl, hpruned, hfound⟩ := lookup_eq_ok hlookup
    exact .begin _ _ _ hturns hwaiting hfound hopen (by simp [setState, hpruned]) rfl rfl rfl
  | notOpen hturns hwaiting hlookup _ =>
    obtain ⟨rfl, -, -⟩ := lookup_eq_ok hlookup
    exact Move.of_refused hturns hwaiting (keeps_prune s)
  | @notFound _ call _ _ hturns hwaiting hlookup =>
    have hkeeps := keeps_lookup call.owner s
    rw [hlookup] at hkeeps
    exact Move.of_refused hturns hwaiting hkeeps
  | append hturns => exact .append _ _ hturns rfl rfl rfl rfl rfl rfl
  | fail hturns hrunning =>
    exact .release _ _ hturns (.inl draft_forget) keeps_forget.turns keeps_forget.feed
      (.inl ⟨keeps_forget.lost, by simp [hrunning]⟩)
  | failLate hturns hrunning =>
    exact .release _ _ hturns (.inl draft_forget) keeps_forget.turns keeps_forget.feed
      (.inr ⟨rfl, hrunning⟩)
  | publish hturns => exact .release _ _ hturns (.inr rfl) rfl rfl (.inl ⟨rfl, fun _ => rfl⟩)
  | edit hturns => exact .release _ _ hturns (.inl rfl) rfl rfl (.inl ⟨rfl, by simp⟩)
  | forgetKey _ => exact .keep ⟨.inl rfl, rfl, rfl, rfl⟩
  | other _ _ => exact .keep ⟨.inl rfl, rfl, rfl, rfl⟩
  | tick _ => exact .keep ⟨.inl rfl, rfl, rfl, rfl⟩

end

/-! ### What holds at every time -/

theorem Call.not_publishing_of_waiting {call : Call} (h : call.progress = .waiting) :
    ¬ call.publishing := by
  obtain ⟨_, _, kind, _⟩ := call
  cases h
  cases kind <;> simp [Call.publishing]

/-- What the turns say about the draft and the feed. -/
structure Consistent (s : Service) : Prop where
  -- Only the first call has its turn.
  waiting : ∀ call ∈ s.turns.tail, call.progress = .waiting
  state : ∀ draft ∈ s.draft, draft.state = .publishing ↔ ∃ call ∈ s.turns.head?, call.publishing
  notCancelled : ∀ draft ∈ s.draft, draft.state ≠ .cancelled
  appended : ∀ call ∈ s.turns.head?, call.progress = .running true → call.id ∈ s.feed
  lost : ∀ id ∈ s.lost, id ∈ s.feed
  -- A record of a draft that is still there is that of the running call.
  pending : s.lost = [] → s.feed ≠ [] → s.draft.isSome →
    ∃ call ∈ s.turns.head?, call.publishing ∧ call.progress = .running true
  fresh : s.lost = [] → ∀ call ∈ s.turns.head?, call.publishing → call.progress = .running false →
    s.feed = []
  once : s.lost = [] → s.feed.length ≤ 1

namespace Consistent

variable {s s' : Service}

theorem keep (h : Consistent s) (hkeeps : Keeps s s') : Consistent s' := by
  have hdraft : ∀ draft ∈ s'.draft, draft ∈ s.draft := fun draft hmem => by
    rcases hkeeps.draft with hkeep | hdrop
    · exact hkeep ▸ hmem
    · simp [hdrop] at hmem
  have hsome : s'.draft.isSome → s.draft.isSome := fun hmem => by
    rcases hkeeps.draft with hkeep | hdrop
    · exact hkeep ▸ hmem
    · simp [hdrop] at hmem
  obtain ⟨-, hturns, hfeed, hlost⟩ := hkeeps
  constructor
  all_goals try simp only [hturns, hfeed, hlost]
  · exact h.waiting
  · exact fun draft hmem => h.state draft (hdraft draft hmem)
  · exact fun draft hmem => h.notCancelled draft (hdraft draft hmem)
  · exact h.appended
  · exact h.lost
  · exact fun hlost hfeed hmem => h.pending hlost hfeed (hsome hmem)
  · exact h.fresh
  · exact h.once

variable {call : Call}

/-- A call that waits behind the others does not change which one runs. -/
theorem head?_append_waiting {turns : List Call} (hwaiting : call.progress = .waiting)
    {P : Call → Prop} (hP : P call → call.progress ≠ .waiting) :
    (∃ c ∈ (turns ++ [call]).head?, P c) ↔ ∃ c ∈ turns.head?, P c := by
  cases turns with
  | nil => simpa using fun hcall => hP hcall hwaiting
  | cons _ _ => simp

theorem enqueue (h : Consistent s) (hwaiting : call.progress = .waiting)
    (hdraft : s'.draft = s.draft) (hturns : s'.turns = s.turns ++ [call]) (hfeed : s'.feed = s.feed)
    (hlost : s'.lost = s.lost) : Consistent s' := by
  have hidle : call.publishing → call.progress ≠ .waiting :=
    fun hcall hw => Call.not_publishing_of_waiting hw hcall
  have hmem : ∀ c ∈ (s.turns ++ [call]).head?, c.progress = .waiting ∨ c ∈ s.turns.head? := by
    cases s.turns with
    | nil => simp [hwaiting]
    | cons _ _ => simp
  constructor
  all_goals try simp only [hturns, hfeed, hlost, hdraft]
  · cases hs : s.turns with
    | nil => simp
    | cons first rest =>
      intro c hc
      simp only [cons_append, tail_cons, mem_append, mem_singleton] at hc
      rcases hc with hc | rfl
      · exact h.waiting c (by simpa [hs] using hc)
      · exact hwaiting
  · exact fun draft hd => (h.state draft hd).trans (head?_append_waiting hwaiting hidle).symm
  · exact h.notCancelled
  · intro c hc hrunning
    rcases hmem c hc with hw | hc
    · simp [hw] at hrunning
    · exact h.appended c hc hrunning
  · exact h.lost
  · exact fun hl hf hd => (head?_append_waiting hwaiting (by simp [hwaiting])).2 (h.pending hl hf hd)
  · intro hl c hc hpublishing hrunning
    rcases hmem c hc with hw | hc
    · simp [hw] at hrunning
    · exact h.fresh hl c hc hpublishing hrunning
  · exact h.once

variable {rest : List Call}

theorem begin (h : Consistent s) {draft : Draft} (hturns : s.turns = call :: rest)
    (hwaiting : call.progress = .waiting) (hdraft : s.draft = some draft)
    (hdraft' : s'.draft = some { draft with state := call.kind.state })
    (hturns' : s'.turns = { call with progress := .running false } :: rest)
    (hfeed : s'.feed = s.feed) (hlost : s'.lost = s.lost) : Consistent s' := by
  -- The draft is in the table and the call was waiting: nothing is in the feed.
  have hempty : s.lost = [] → s.feed = [] := fun hl => by
    by_contra hf
    obtain ⟨c, hc, -, hrunning⟩ := h.pending hl hf (by simp [hdraft])
    obtain rfl : call = c := by simpa [hturns] using hc
    simp [hwaiting] at hrunning
  constructor
  all_goals try simp only [hturns', hfeed, hlost, hdraft']
  · simpa [hturns] using h.waiting
  · cases call.kind <;> simp [CallKind.state, Call.publishing]
  · cases call.kind <;> simp [CallKind.state]
  · simp
  · exact h.lost
  · exact fun hl hf => absurd (hempty hl) hf
  · exact fun hl _ _ _ _ => hempty hl
  · exact h.once

theorem append (h : Consistent s) (hturns : s.turns = call :: rest) (hpublishing : call.publishing)
    (hrunning : call.progress = .running false) (hdraft : s'.draft = s.draft)
    (hturns' : s'.turns = { call with progress := .running true } :: rest)
    (hfeed : s'.feed = s.feed ++ [call.id]) (hlost : s'.lost = s.lost) : Consistent s' := by
  have hpublishing' : { call with progress := .running true }.publishing := by
    obtain ⟨_, _, kind, _⟩ := call
    cases kind with
    | publish _ => rfl
    | edit => simp [Call.publishing] at hpublishing
  have hempty : s.lost = [] → s.feed = [] := fun hl =>
    h.fresh hl call (by simp [hturns]) hpublishing hrunning
  constructor
  all_goals try simp only [hturns', hfeed, hlost, hdraft]
  · simpa [hturns] using h.waiting
  · intro d hd
    rw [h.state d hd]
    simp [hturns, hpublishing, hpublishing']
  · exact h.notCancelled
  · simp
  · exact fun id hid => mem_append_left _ (h.lost id hid)
  · simp [hpublishing']
  · simp
  · exact fun hl => by simp [hempty hl]

theorem release (h : Consistent s) (hturns : s.turns = call :: rest)
    (hdraft : s'.draft = (s.release rest).draft ∨ s'.draft = none) (hturns' : s'.turns = rest)
    (hfeed : s'.feed = s.feed)
    (hlost : s'.lost = s.lost ∧ (call.progress = .running true → s'.draft = none) ∨ s'.lost = s.lost ++ [call.id] ∧ call.progress = .running true) : Consistent s' := by
  have hwaiting : ∀ c ∈ rest, c.progress = .waiting := by simpa [hturns] using h.waiting
  have hhead : ∀ c ∈ rest.head?, c.progress = .waiting := fun c hc =>
    hwaiting c (mem_of_mem_head? hc)
  have hopen : ∀ d ∈ s'.draft, d.state = .open ∧ s.draft.isSome := by
    rcases hdraft with hdraft | hdraft
    · simp only [hdraft, Service.release, Option.mem_def, Option.map_eq_some_iff]
      rintro d ⟨d₀, hd₀, rfl⟩
      simp [h.notCancelled d₀ hd₀, hd₀]
    · simp [hdraft]
  have hlost' : s'.lost = [] → s.lost = [] ∧ (call.progress = .running true → s'.draft = none) := by
    rcases hlost with ⟨hl, hgone⟩ | ⟨hl, -⟩
    · exact fun hnil => ⟨hl ▸ hnil, hgone⟩
    · simp [hl]
  constructor
  all_goals try simp only [hturns', hfeed]
  · exact fun c hc => hwaiting c (mem_of_mem_tail hc)
  · intro d hd
    simp only [(hopen d hd).1, reduceCtorEq, false_iff]
    rintro ⟨c, hc, hpublishing⟩
    exact Call.not_publishing_of_waiting (hhead c hc) hpublishing
  · exact fun d hd => by simp [(hopen d hd).1]
  · exact fun c hc hrunning => by simp [hhead c hc] at hrunning
  · intro id hid
    rcases hlost with ⟨hl, -⟩ | ⟨hl, hrunning⟩
    · exact h.lost id (hl ▸ hid)
    · rw [hl, mem_append, mem_singleton] at hid
      rcases hid with hid | rfl
      · exact h.lost id hid
      · exact h.appended call (by simp [hturns]) hrunning
  · intro hl hf hd
    obtain ⟨d, hd⟩ := Option.isSome_iff_exists.1 hd
    obtain ⟨c, hc, -, hrunning⟩ := h.pending (hlost' hl).1 hf (hopen d hd).2
    obtain rfl : call = c := by simpa [hturns] using hc
    simp [(hlost' hl).2 hrunning] at hd
  · exact fun _ c hc _ hrunning => by simp [hhead c hc] at hrunning
  · exact fun hl => h.once (hlost' hl).1

theorem move (h : Consistent s) (hmove : Move s s') : Consistent s' := by
  cases hmove with
  | keep hkeeps => exact h.keep hkeeps
  | enqueue call hwaiting _ hdraft hturns hfeed hlost =>
    exact h.enqueue hwaiting hdraft hturns hfeed hlost
  | begin call rest draft hturns hwaiting hdraft _ hdraft' hturns' hfeed hlost =>
    exact h.begin hturns hwaiting hdraft hdraft' hturns' hfeed hlost
  | append call rest hturns hpublishing hrunning hdraft hturns' hfeed hlost =>
    exact h.append hturns hpublishing hrunning hdraft hturns' hfeed hlost
  | release call rest hturns hdraft hturns' hfeed hlost =>
    exact h.release hturns hdraft hturns' hfeed hlost

theorem of_created (h : Created s) : Consistent s := by
  constructor
  all_goals try simp only [h.turns, h.feed, h.lost]
  · simp
  · exact fun d hd => by simp [h.state d hd]
  · exact fun d hd => by simp [h.state d hd]
  all_goals simp

end Consistent

section

variable {groupId draftId : String} {retentionTtlMs : Int} {s s' : Service}

theorem Reached.consistent (h : Reached groupId draftId retentionTtlMs s) : Consistent s := by
  obtain ⟨s₀, hcreated, hrun⟩ := h
  exact Reachable.invariant (fun h hstep => h.move (Step.move hstep)) hrun (.of_created hcreated)

/-- One record at most is appended for a draft, if no call fails after its own was. -/
theorem length_feed_le_one (h : Reached groupId draftId retentionTtlMs s) (hlost : s.lost = []) :
    s.feed.length ≤ 1 :=
  h.consistent.once hlost

/-- An open draft that no call waits for. -/
def idle (calls : ℕ) (feed lost : List ℕ) : Service where
  draft := some { owner := "alice", state := .open, expiresAtMonotonic := 1000 }
  turns := []
  publications := .empty
  forgotten := []
  feed := feed
  lost := lost
  calls := calls
  now := 0

theorem created_idle : Created (idle 0 [] []) :=
  ⟨rfl, by simp [idle], rfl, rfl, rfl⟩

/-- A call that publishes the draft has its turn. -/
def running (id : ℕ) (appended : Bool) (feed lost : List ℕ) : Service where
  draft := some { owner := "alice", state := .publishing, expiresAtMonotonic := 1000 }
  turns := [⟨id, "alice", .publish "k", .running appended⟩]
  publications := .ofList [(publicationKey "alice" "g" "k", ⟨"d", 60000⟩)]
  forgotten := []
  feed := feed
  lost := lost
  calls := id + 1
  now := 0

theorem run_running (id : ℕ) (feed lost : List ℕ) :
    ReflTransGen (Step "g" "d" 60000) (idle id feed lost) (running id false feed lost) := by
  refine .head (.publishDraft "alice" "k") (.single ?_)
  have hlookup : ((idle id feed lost).publishDraft "g" "d" 60000 "alice" "k").2.lookup "alice" =
      (.ok ⟨"alice", .open, 1000⟩, ((idle id feed lost).publishDraft "g" "d" 60000 "alice" "k").2) :=
    rfl
  exact @Step.begin "g" "d" 60000 _ _ ⟨id, "alice", .publish "k", .waiting⟩ [] _ rfl rfl hlookup rfl

/-- The record is appended, and the call fails. Its key is forgotten. -/
theorem run_idle (id : ℕ) (feed lost : List ℕ) :
    ReflTransGen (Step "g" "d" 60000) (running id false feed lost)
      (idle (id + 1) (feed ++ [id]) (lost ++ [id])) := by
  refine .head (.append rfl) (.head (.failLate rfl rfl) (.single ?_))
  exact @Step.forgetKey "g" "d" 60000 _ (publicationKey "alice" "g" "k") mem_cons_self

/-- The call fails before it appends anything. -/
theorem run_failed (id : ℕ) (feed lost : List ℕ) :
    ReflTransGen (Step "g" "d" 60000) (running id false feed lost) (idle (id + 1) feed lost) :=
  .head (.fail rfl rfl) (.single
    (@Step.forgetKey "g" "d" 60000 _ (publicationKey "alice" "g" "k") mem_cons_self))

/-- A call fails after its record was appended, and the next one appends another. -/
theorem feed_of_retry : ∃ s, Reached "g" "d" 60000 s ∧ s.feed = [0, 1] := by
  refine ⟨running 1 true [0, 1] [0], ⟨_, created_idle, ?_⟩, rfl⟩
  have hfirst := (run_running 0 [] []).trans (run_idle 0 [] [])
  exact (hfirst.trans (run_running 1 [0] [0])).tail (.append rfl)

/-- A call fails before it appends anything, and a second one appends its record. -/
theorem length_feed_running : (running 1 true [1] []).feed.length ≤ 1 :=
  length_feed_le_one ⟨_, created_idle, (((run_running 0 [] []).trans (run_failed 0 [] [])).trans
    (run_running 1 [] [])).tail (.append rfl)⟩ rfl

/-! ### Cancelled drafts -/

/-- The draft is gone, and no call for it publishes. -/
structure Gone (s : Service) : Prop where
  draft : s.draft = none
  waiting : ∀ call ∈ s.turns.tail, call.progress = .waiting
  idle : ∀ call ∈ s.turns.head?, ¬ call.publishing
  feed : s.feed = []

theorem Gone.move (h : Gone s) (hmove : Move s s') : Gone s' := by
  cases hmove with
  | keep hkeeps =>
    obtain ⟨hdraft, hturns, hfeed, -⟩ := hkeeps
    refine ⟨?_, hturns ▸ h.waiting, hturns ▸ h.idle, hfeed ▸ h.feed⟩
    rw [h.draft, or_self] at hdraft
    exact hdraft
  | enqueue _ _ hsome => simp [h.draft] at hsome
  | begin _ _ _ _ _ hdraft => simp [h.draft] at hdraft
  | append call _ hturns hpublishing => exact absurd hpublishing (h.idle call (by simp [hturns]))
  | release call rest hturns hdraft hturns' hfeed _ =>
    have hwaiting : ∀ c ∈ rest, c.progress = .waiting := by simpa [hturns] using h.waiting
    refine ⟨?_, ?_, ?_, hfeed ▸ h.feed⟩
    · simpa [release, h.draft] using hdraft
    · exact hturns' ▸ fun c hc => hwaiting c (mem_of_mem_tail hc)
    · rw [hturns']
      exact fun c hc => Call.not_publishing_of_waiting (hwaiting c (mem_of_mem_head? hc))

theorem cancelDraft_eq_true_iff {owner : String} :
    (s.cancelDraft owner).1 = true ↔ ∃ draft ∈ s.draft, draft.owner = owner := by
  unfold cancelDraft
  cases s.draft with
  | none => simp
  | some draft => by_cases h : draft.owner = owner <;> simp [h]

theorem cancelDraft_of_eq_true {owner : String} (h : (s.cancelDraft owner).1 = true) :
    (s.cancelDraft owner).2 = { s with draft := none } := by
  obtain ⟨draft, hdraft, rfl⟩ := cancelDraft_eq_true_iff.1 h
  rw [Option.mem_def] at hdraft
  simp [cancelDraft, hdraft]

/-- A call that publishes the draft can still append its record, if it has not done so. -/
theorem exists_feed_ne_nil_of_publishing (h : Consistent s) {call : Call} {rest : List Call}
    (hturns : s.turns = call :: rest) (hpublishing : call.publishing) :
    ∃ s', ReflTransGen (Step groupId draftId retentionTtlMs) { s with draft := none } s' ∧
      s'.feed ≠ [] := by
  obtain ⟨id, owner, kind, progress⟩ := call
  match kind, progress, hpublishing with
  | .publish key, .running true, _ =>
    refine ⟨_, .refl, ?_⟩
    have hmem := h.appended ⟨id, owner, .publish key, .running true⟩ (by simp [hturns]) rfl
    exact ne_nil_of_mem hmem
  | .publish key, .running false, _ =>
    refine ⟨_, .single (Step.append (s := { s with draft := none }) hturns), ?_⟩
    simp

/-- A draft was cancelled. Nothing is or will be in the feed for it exactly if no call was publishing it
    and none had failed after its record was appended. -/
theorem feed_cancel_eq_nil_iff {owner : String} (h : Reached groupId draftId retentionTtlMs s)
    (hcancel : (s.cancelDraft owner).1 = true) :
    (∀ s', ReflTransGen (Step groupId draftId retentionTtlMs) (s.cancelDraft owner).2 s' →
      s'.feed = []) ↔ s.lost = [] ∧ ∀ draft ∈ s.draft, draft.state ≠ .publishing := by
  have hs := h.consistent
  rw [cancelDraft_of_eq_true hcancel]
  constructor
  · intro hnil
    refine ⟨?_, fun draft hdraft hstate => ?_⟩
    · rw [eq_nil_iff_forall_not_mem]
      intro id hid
      have hfeed : s.feed = [] := hnil { s with draft := none } .refl
      exact not_mem_nil (hfeed ▸ hs.lost id hid)
    · obtain ⟨call, hcall, hpublishing⟩ := (hs.state draft hdraft).1 hstate
      obtain ⟨rest, hturns⟩ := head?_eq_some_iff.1 hcall
      obtain ⟨s', hrun, hfeed⟩ := exists_feed_ne_nil_of_publishing hs hturns hpublishing
      exact hfeed (hnil s' hrun)
  · rintro ⟨hlost, hstate⟩ s' hrun
    obtain ⟨draft, hdraft, -⟩ := cancelDraft_eq_true_iff.1 hcancel
    have hidle : ∀ call ∈ s.turns.head?, ¬ call.publishing := fun call hcall hpublishing =>
      hstate draft hdraft ((hs.state draft hdraft).2 ⟨call, hcall, hpublishing⟩)
    -- A record in the feed would be that of a running call.
    have hfeed : s.feed = [] := by
      by_contra hne
      obtain ⟨call, hcall, hpublishing, -⟩ := hs.pending hlost hne (Option.isSome_of_mem hdraft)
      exact hidle call hcall hpublishing
    exact (Reachable.invariant (fun h hstep => Gone.move h (Step.move hstep)) hrun
      ⟨rfl, hs.waiting, hidle, hfeed⟩).feed

/-- The draft is cancelled while a call publishes it, and the record is appended afterwards. -/
theorem feed_cancel_running : ∃ s s', Reached "g" "d" 60000 s ∧ (s.cancelDraft "alice").1 = true ∧
      ReflTransGen (Step "g" "d" 60000) (s.cancelDraft "alice").2 s' ∧ s'.feed = [0] :=
  ⟨running 0 false [] [], _, ⟨_, created_idle, run_running 0 [] []⟩, rfl, .single (.append rfl), rfl⟩

/-- The draft is cancelled after a call has failed to publish it. -/
theorem feed_cancel_idle : ((idle 1 [] []).cancelDraft "alice").1 = true ∧
      ∀ s', ReflTransGen (Step "g" "d" 60000) ((idle 1 [] []).cancelDraft "alice").2 s' →
        s'.feed = [] :=
  ⟨rfl, (feed_cancel_eq_nil_iff ⟨_, created_idle, (run_running 0 [] []).trans (run_failed 0 [] [])⟩
    rfl).2 ⟨rfl, by simp [idle]⟩⟩

end

end Chronolog.Rpc
