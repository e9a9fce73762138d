import Chronolog.Lib.Reachable
import Chronolog.NodeCore.Membership
import Chronolog.NodeCore.Wire
import Mathlib.Algebra.Order.BigOperators.Group.Finset

/-!
# Payloads in a store of blobs

A payload that is too long for an envelope is cut into chunks, which are put into a store by their
digests, all at once. A chunk is written to a temporary file, which is then renamed; the name of the
temporary file depends on the digest only, so two calls that put the same chunk use the same file.

A call that stores a payload returns and what it stored can be loaded, unless a file operation fails,
exactly if the payload is within the limit of loading, the chunks that are in the store already are
intact there and none of the others is put twice at the same time (`roundTrips_iff`).
-/

namespace Chronolog

open Procedure Relation Function List

variable {chunk : Bytes}

/-! ## Payloads and chunks -/

structure EnvelopeBlobOptions where
  maxInlineBytes : Int
  chunkBytes : Int
  deriving DecidableEq

def validateOptions (options : EnvelopeBlobOptions) : Except String Unit :=
  if options.maxInlineBytes < 0 ∨ maxSafeInteger < options.maxInlineBytes ∨ options.chunkBytes < 1 ∨
      4 * 1024 * 1024 < options.chunkBytes then .error "BLOB_OPTIONS_INVALID"
  else .ok ()

/-- The chunks of a payload: one at each multiple of their size that is within the payload. -/
def payloadChunks (chunkBytes : ℕ) (bytes : Bytes) : List Bytes :=
  (range ((bytes.length + chunkBytes - 1) / chunkBytes)).map fun index =>
    (bytes.drop (index * chunkBytes)).take chunkBytes

/-- The entry of a chunk in a manifest. -/
abbrev chunkEntry (codec : Codec) (chunk : Bytes) : PayloadChunk :=
  ⟨codec.hashDomain .payloadChunk chunk, chunk.length⟩

/-- The manifest of chunks. -/
def payloadManifest (codec : Codec) (chunks : List Bytes) : PayloadManifest where
  totalDigest := codec.hashDomain .envelope chunks.flatten
  totalSize := chunks.flatten.length
  chunks := chunks.map (chunkEntry codec)

def createPayloadManifest (codec : Codec) (chunks : List Bytes) : Except String PayloadManifest :=
  if chunks = [] then .error "Payload manifest requires at least one chunk"
  else .ok (payloadManifest codec chunks)

/-- What a call that stores a payload puts into the store, and the manifest that it returns when that is
    done. -/
def storeEnvelopePayload (codec : Codec) (bytes : Bytes) (options : EnvelopeBlobOptions) :
    Except String (PayloadManifest × List Bytes) := do
  validateOptions options
  (if bytes.length ≤ options.maxInlineBytes then .error "BLOB_PAYLOAD_INLINE_ELIGIBLE" else .ok ())
  let chunks := payloadChunks options.chunkBytes.toNat bytes
  return (← createPayloadManifest codec chunks, chunks)

/-! ## Files -/

/-- The files of a digest in a store. -/
structure BlobFiles where
  /-- The file under the name of the digest. -/
  final : Option ℕ := none
  /-- The temporary file of the process. -/
  temporary : Option ℕ := none
  contents : ℕ → Bytes := fun _ => []
  /-- The next file to be created. -/
  next : ℕ := 0

/-- The bytes of a file after a write at an offset. A gap before the offset is filled with zeros. -/
def writeAt (contents : Bytes) (offset : ℕ) (bytes : Bytes) : Bytes :=
  (contents.take offset ++ replicate (offset - contents.length) 0) ++ bytes ++
    contents.drop (offset + bytes.length)

/-- How far a call of `put` is. -/
inductive PutStage
  | checking | making | opening
  | writing (file offset : ℕ)
  | reopening | syncing | moving
  | done
  /-- It has failed, because a file operation failed or because of what it found. -/
  | failed (fault : Bool)
  deriving DecidableEq

def PutStage.ended : PutStage → Bool
  | done | failed _ => true
  | _ => false

section

variable (codec : Codec)

/-- Does a chunk have the digest? -/
def digestMatches (digest bytes : Bytes) : Bool :=
  digest.length = 32 && codec.hashDomain .payloadChunk bytes = digest

/-- Reads a chunk. -/
def BlobFiles.get (files : BlobFiles) (digest : Bytes) : Except String (Option Bytes) :=
  match files.final with
  | none => .ok none
  | some file =>
    if digestMatches codec digest (files.contents file) then .ok (some (files.contents file))
    else .error "BLOB_CHUNK_DIGEST_MISMATCH"

section

variable (chunk : Bytes)

/-- A file operation of a call that puts a chunk. -/
inductive PutStep : BlobFiles → PutStage → BlobFiles → PutStage → Prop
  | fault {files : BlobFiles} {stage : PutStage} (hrunning : stage.ended = false) :
      PutStep files stage files (.failed true)
  | found {files : BlobFiles} {file : ℕ} (hfinal : files.final = some file)
      (hmatches : digestMatches codec (codec.hashDomain .payloadChunk chunk) (files.contents file)) :
      PutStep files .checking files .done
  | damaged {files : BlobFiles} {file : ℕ} (hfinal : files.final = some file)
      (hmatches : ¬ digestMatches codec (codec.hashDomain .payloadChunk chunk)
        (files.contents file)) :
      PutStep files .checking files (.failed false)
  | missing {files : BlobFiles} (hfinal : files.final = none) :
      PutStep files .checking files .making
  | make {files : BlobFiles} : PutStep files .making files .opening
  -- The temporary file is created, or emptied if it is there.
  | create {files : BlobFiles} (htemporary : files.temporary = none) :
      PutStep files .opening
        { files with
          temporary := some files.next
          contents := update files.contents files.next []
          next := files.next + 1 }
        (.writing files.next 0)
  | truncate {files : BlobFiles} {file : ℕ} (htemporary : files.temporary = some file) :
      PutStep files .opening
        { files with contents := update files.contents file [] } (.writing file 0)
  -- Some of the bytes are written to the file that was opened, whatever its name is by now.
  | write {files : BlobFiles} {file offset : ℕ} (count : ℕ) (hcount : 0 < count)
      (hlength : offset + count ≤ chunk.length) :
      PutStep files (.writing file offset)
        { files with
          contents := update files.contents file
            (writeAt (files.contents file) offset ((chunk.drop offset).take count)) }
        (.writing file (offset + count))
  | written {files : BlobFiles} {file : ℕ} :
      PutStep files (.writing file chunk.length) files .reopening
  | reopen {files : BlobFiles} (htemporary : files.temporary.isSome) :
      PutStep files .reopening files .syncing
  | sync {files : BlobFiles} : PutStep files .syncing files .moving
  | rename {files : BlobFiles} {file : ℕ} (htemporary : files.temporary = some file) :
      PutStep files .moving { files with final := some file, temporary := none } .done
  -- The temporary file is not there any more.
  | lost {files : BlobFiles} {stage : PutStage} (hstage : stage = .reopening ∨ stage = .moving)
      (htemporary : files.temporary = none) : PutStep files stage files (.failed false)

end

end

/-! ## Calls -/

/-- The calls that put chunks into a store at the same time: those of the chunks of a payload, and
    others. -/
inductive PutCall (n : ℕ) (κ : Type)
  | own (index : Fin n)
  | other (call : κ)
  deriving DecidableEq

/-- A store and the calls on it. -/
structure BlobState (ι : Type) where
  files : Bytes → BlobFiles
  stage : ι → PutStage

/-- A file operation of one of the calls. -/
inductive BlobStep {ι : Type} [DecidableEq ι] (codec : Codec) (chunk : ι → Bytes) :
    BlobState ι → BlobState ι → Prop
  | put {s : BlobState ι} (call : ι) {files : BlobFiles} {stage : PutStage}
      (hput : PutStep codec (chunk call) (s.files (codec.hashDomain .payloadChunk (chunk call)))
        (s.stage call) files stage) :
      BlobStep codec chunk s
        { files := update s.files (codec.hashDomain .payloadChunk (chunk call)) files
          stage := update s.stage call stage }

/-! ## Storing and loading -/

section

variable {κ : Type}

/-- What calls put into a store: the chunks of a payload, and what others put at the same time. -/
structure Puts (κ : Type) where
  codec : Codec
  chunks : List Bytes
  others : κ → Bytes

/-- The chunk of a call. -/
def Puts.chunkOf (P : Puts κ) : PutCall P.chunks.length κ → Bytes
  | .own index => P.chunks.get index
  | .other call => P.others call

/-- The store and the calls on it. -/
abbrev Puts.State (P : Puts κ) : Type := BlobState (PutCall P.chunks.length κ)

variable (P : Puts κ)

/-- The digest of the chunk of a call. -/
def Puts.digestOf (call : PutCall P.chunks.length κ) : Bytes :=
  P.codec.hashDomain .payloadChunk (P.chunkOf call)

variable [DecidableEq κ]

/-- A file operation of one of the calls. -/
abbrev Puts.Step : P.State → P.State → Prop := BlobStep P.codec P.chunkOf

/-- The store and the calls on it, some operations after the calls were made. -/
def BlobRun (files : Bytes → BlobFiles) (s : P.State) : Prop :=
  ReflTransGen P.Step ⟨files, fun _ => .checking⟩ s

/-- A run without end of the calls, with steps of others in between, in which each call of the payload
    that has not ended goes on at some time. -/
structure BlobTrace (files : Bytes → BlobFiles) (trace : ℕ → P.State) : Prop where
  start : trace 0 = ⟨files, fun _ => .checking⟩
  step : ∀ time, trace (time + 1) = trace time ∨
    P.Step (trace time) (trace (time + 1))
  fair : ∀ time index, ((trace time).stage (.own index)).ended = false →
    ∃ later, time ≤ later ∧ (trace (later + 1)).stage (.own index) ≠ (trace later).stage (.own index)

/-- What is read of the chunks of the payload is in the store at some later times. -/
def ReadsLater (s : P.State) (get : ContentAddressedBlobStore) : Prop :=
  ∀ index, ∃ s', ReflTransGen P.Step s s' ∧
    get (P.digestOf (.own index)) =
      (s'.files (P.digestOf (.own index))).get P.codec (P.digestOf (.own index))

/-- The call that stores a payload fails only because a file operation fails. Once it has returned the
    payload can be loaded, with reads at any later times. As long as one of its calls has not ended there
    is an operation that it can do, and if no file operation fails all of them return. -/
structure RoundTrips (payload : Bytes) (manifest : PayloadManifest) (files : Bytes → BlobFiles) :
    Prop where
  faulted : ∀ s, BlobRun P files s → ∀ index fault,
    s.stage (.own index) = .failed fault → fault = true
  loads : ∀ s, BlobRun P files s → (∀ index, s.stage (.own index) = .done) →
    ∀ get, ReadsLater P s get → loadEnvelopePayload P.codec manifest get = .ok payload
  advances : ∀ s, BlobRun P files s → ∀ index, (s.stage (.own index)).ended = false →
    ∃ s', P.Step s s' ∧
      s'.stage (.own index) ≠ s.stage (.own index) ∧ s'.stage (.own index) ≠ .failed true
  returns : ∀ trace, BlobTrace P files trace →
    (∀ time index, (trace time).stage (.own index) ≠ .failed true) →
    ∃ time, ∀ index, (trace time).stage (.own index) = .done

/-- The digest of a chunk of the payload, of 32 bytes, is that of no other bytes that a call puts or that
    are stored. -/
structure Distinguishes (files : Bytes → BlobFiles) : Prop where
  length : ∀ index, (P.digestOf (.own index)).length = 32
  calls : ∀ index call, P.digestOf call = P.digestOf (.own index) →
    P.chunkOf call = P.chunks.get index
  stored : ∀ index file, (files (P.digestOf (.own index))).final = some file →
    P.codec.hashDomain .payloadChunk ((files (P.digestOf (.own index))).contents file) =
      P.digestOf (.own index) →
    (files (P.digestOf (.own index))).contents file = P.chunks.get index

/-- A chunk of the payload that is stored already is stored as it is, and one that is not is put by no
    other call. -/
structure Separate (files : Bytes → BlobFiles) : Prop where
  intact : ∀ index file, (files (P.digestOf (.own index))).final = some file →
    (files (P.digestOf (.own index))).contents file = P.chunks.get index
  unshared : ∀ index call, call ≠ .own index → (files (P.digestOf (.own index))).final = none →
    P.chunkOf call ≠ P.chunks.get index

end

/-! ### Loading what was stored -/

theorem flatten_slices (chunkBytes count : ℕ) (bytes : Bytes) :
    ((range count).map fun index => (bytes.drop (index * chunkBytes)).take chunkBytes).flatten =
      bytes.take (count * chunkBytes) := by
  induction count with
  | zero => simp
  | succ count ih =>
    rw [range_succ, map_append, flatten_append, ih]
    simp [Nat.succ_mul, take_add]

/-- The chunks of a payload are the payload. -/
theorem flatten_payloadChunks {chunkBytes : ℕ} (hpos : 0 < chunkBytes) (bytes : Bytes) :
    (payloadChunks chunkBytes bytes).flatten = bytes := by
  rw [payloadChunks, flatten_slices]
  refine take_of_length_le ?_
  have hmod := Nat.div_add_mod (bytes.length + chunkBytes - 1) chunkBytes
  have hlt := Nat.mod_lt (bytes.length + chunkBytes - 1) hpos
  rw [Nat.mul_comm] at hmod
  omega

section

variable {codec : Codec} {payload : Bytes} {options : EnvelopeBlobOptions}
  {manifest : PayloadManifest} {chunks : List Bytes}

theorem validateOptions_eq_ok_iff : validateOptions options = .ok () ↔
      (0 ≤ options.maxInlineBytes ∧ options.maxInlineBytes ≤ maxSafeInteger) ∧
      1 ≤ options.chunkBytes ∧ options.chunkBytes ≤ 4 * 1024 * 1024 := by
  unfold validateOptions
  split_ifs with hinvalid
  · exact iff_of_false nofun (by omega)
  · exact iff_of_true rfl (by omega)

/-- A payload is stored if the options are valid and it is too long for an envelope. -/
theorem storeEnvelopePayload_eq_ok_iff :
    storeEnvelopePayload codec payload options = .ok (manifest, chunks) ↔
      validateOptions options = .ok () ∧ options.maxInlineBytes < payload.length ∧
      chunks = payloadChunks options.chunkBytes.toNat payload ∧
      manifest = payloadManifest codec chunks := by
  constructor
  · intro h
    obtain ⟨_, hvalid, h⟩ := bind_eq_ok_iff.1 h
    obtain ⟨_, hlong, h⟩ := bind_eq_ok_iff.1 h
    obtain ⟨created, hcreated, h⟩ := bind_eq_ok_iff.1 h
    cases h
    unfold createPayloadManifest at hcreated
    split_ifs at hlong hcreated with hinline
    exact ⟨hvalid, not_le.1 hinline, rfl, (Except.ok.inj hcreated).symm⟩
  · rintro ⟨hvalid, hlong, rfl, rfl⟩
    obtain ⟨⟨hinline, -⟩, hpos, -⟩ := validateOptions_eq_ok_iff.1 hvalid
    have hflatten := flatten_payloadChunks (show 0 < options.chunkBytes.toNat by omega) payload
    have hne : payloadChunks options.chunkBytes.toNat payload ≠ [] := by
      intro hnil
      rw [← hflatten, hnil, flatten_nil, length_nil] at hlong
      omega
    simp only [storeEnvelopePayload, hvalid, if_neg hlong.not_ge, createPayloadManifest, if_neg hne]
    rfl

theorem flatten_of_storeEnvelopePayload
    (h : storeEnvelopePayload codec payload options = .ok (manifest, chunks)) :
    chunks.flatten = payload := by
  obtain ⟨hvalid, -, rfl, -⟩ := storeEnvelopePayload_eq_ok_iff.1 h
  have := (validateOptions_eq_ok_iff.1 hvalid).2.1
  exact flatten_payloadChunks (by omega) payload

variable {get : ContentAddressedBlobStore}

theorem fetchChunks_map {chunks : List Bytes}
    (h : ∀ chunk ∈ chunks, get (codec.hashDomain .payloadChunk chunk) = .ok (some chunk)) :
    fetchChunks get (chunks.map (chunkEntry codec)) = .ok chunks := by
  induction chunks with
  | nil => rfl
  | cons chunk chunks ih =>
    rw [map_cons, fetchChunks, h chunk mem_cons_self]
    rw [ih fun chunk hchunk => h chunk (mem_cons_of_mem _ hchunk)]
    rfl

theorem foldlM_verifyChunk (chunks : List Bytes) :
    ((chunks.map (chunkEntry codec)).zip chunks).foldlM
      (fun _ entry => verifyChunk codec entry.1 entry.2) () = .ok () := by
  induction chunks with
  | nil => rfl
  | cons chunk chunks ih =>
    have hchunk : verifyChunk codec (chunkEntry codec chunk) chunk = .ok () := by simp [verifyChunk]
    rw [map_cons, zip_cons_cons, foldlM_cons, hchunk]
    exact ih

theorem verifyPayloadManifest_payloadManifest (chunks : List Bytes) :
    verifyPayloadManifest codec (payloadManifest codec chunks) chunks = .ok chunks.flatten := by
  simp [verifyPayloadManifest, payloadManifest, foldlM_verifyChunk]

/-- A payload whose chunks are in a store can be loaded exactly if it is within the limit. -/
theorem loadEnvelopePayload_eq_ok_iff
    (h : storeEnvelopePayload codec payload options = .ok (manifest, chunks))
    (hget : ∀ chunk ∈ chunks, get (codec.hashDomain .payloadChunk chunk) = .ok (some chunk)) :
    loadEnvelopePayload codec manifest get = .ok payload ↔ payload.length ≤ 16 * 1024 * 1024 := by
  have hflatten := flatten_of_storeEnvelopePayload h
  obtain ⟨-, -, -, rfl⟩ := storeEnvelopePayload_eq_ok_iff.1 h
  have hverify := @verifyPayloadManifest_payloadManifest codec chunks
  rw [hflatten] at hverify
  have hsize : (payloadManifest codec chunks).totalSize = payload.length := by
    rw [payloadManifest, hflatten]
  have hfetch : fetchChunks get (payloadManifest codec chunks).chunks = .ok chunks :=
    fetchChunks_map hget
  by_cases hlimit : payload.length ≤ 16 * 1024 * 1024
  · have hnot : ¬ 16 * 1024 * 1024 < (payload.length : Int) := by omega
    simp only [loadEnvelopePayload, hsize, hfetch, if_neg hnot]
    exact ⟨fun _ => hlimit, fun _ => hverify⟩
  · have hover : 16 * 1024 * 1024 < (payload.length : Int) := by omega
    simp only [loadEnvelopePayload, hsize, if_pos hover]
    exact ⟨fun h => absurd h error_bind_ne_ok, fun h => absurd h hlimit⟩

end

/-! ### A chunk that no other call puts -/

/-- The files of a chunk that is not stored yet and that one call puts, by the stage of the call. -/
def Progressed (chunk : Bytes) (files : BlobFiles) : PutStage → Prop
  | .checking | .making | .opening => files.final = none
  | .writing file offset => files.final = none ∧ files.temporary = some file ∧
      files.contents file = chunk.take offset ∧ offset ≤ chunk.length
  | .reopening | .syncing | .moving => files.final = none ∧
      ∃ file, files.temporary = some file ∧ files.contents file = chunk
  | .done => ∃ file, files.final = some file ∧ files.contents file = chunk
  | .failed fault => fault = true

theorem writeAt_take {offset count : ℕ} (hlength : offset + count ≤ chunk.length) :
    writeAt (chunk.take offset) offset ((chunk.drop offset).take count) =
      chunk.take (offset + count) := by
  have hoffset : (chunk.take offset).length = offset := by simp; omega
  have hdrop : (chunk.take offset).drop (offset + ((chunk.drop offset).take count).length) = [] :=
    drop_of_length_le (by omega)
  simp only [writeAt, hoffset, hdrop, Nat.sub_self, replicate_zero, append_nil,
    take_take, Nat.min_self, take_add]

variable {files files' : BlobFiles} {stage stage' : PutStage}

theorem Progressed.step {codec : Codec} (h : Progressed chunk files stage)
    (hput : PutStep codec chunk files stage files' stage') : Progressed chunk files' stage' := by
  cases hput with
  | fault _ => rfl
  | found hfinal _ => cases (h).symm.trans hfinal
  | damaged hfinal _ => cases (h).symm.trans hfinal
  | missing _ => exact h
  | make => exact h
  | create _ => exact ⟨h, rfl, by simp, Nat.zero_le _⟩
  | truncate htemporary => exact ⟨h, htemporary, by simp, Nat.zero_le _⟩
  | write count _ hlength =>
    obtain ⟨hfinal, htemporary, hcontents, -⟩ := h
    refine ⟨hfinal, htemporary, ?_, hlength⟩
    rw [hcontents]
    simpa using writeAt_take hlength
  | written =>
    obtain ⟨hfinal, htemporary, hcontents, -⟩ := h
    exact ⟨hfinal, _, htemporary, by simpa using hcontents⟩
  | reopen _ => exact h
  | sync => exact h
  | rename htemporary =>
    obtain ⟨-, file, hfile, hcontents⟩ := h
    cases htemporary.symm.trans hfile
    exact ⟨_, rfl, hcontents⟩
  | lost hstage htemporary =>
    rcases hstage with rfl | rfl <;>
      obtain ⟨-, file, hfile, -⟩ := h <;> cases htemporary.symm.trans hfile

/-- A call on a chunk that is stored already. -/
def Settled : PutStage → Prop
  | .checking | .done => True
  | .failed fault => fault = true
  | _ => False

theorem Settled.step {codec : Codec} {file : ℕ} (h : Settled stage)
    (hfinal : files.final = some file)
    (hmatches : digestMatches codec (codec.hashDomain .payloadChunk chunk) (files.contents file))
    (hput : PutStep codec chunk files stage files' stage') : files' = files ∧ Settled stage' := by
  cases hput with
  | fault _ => exact ⟨rfl, rfl⟩
  | found _ _ => exact ⟨rfl, trivial⟩
  | damaged hfinal' hnot =>
    cases hfinal.symm.trans hfinal'
    exact absurd hmatches hnot
  | missing hnone => cases hfinal.symm.trans hnone
  | make | create _ | truncate _ | write _ _ _ | written | reopen _ | sync | rename _ =>
    cases h
  | lost hstage _ => rcases hstage with rfl | rfl <;> simp [Settled] at h

theorem digestMatches_self {codec : Codec}
    (hlength : (codec.hashDomain .payloadChunk chunk).length = 32) :
    digestMatches codec (codec.hashDomain .payloadChunk chunk) chunk := by
  simp [digestMatches, hlength]

section

variable {codec : Codec} {κ : Type} {P : Puts κ} {files : Bytes → BlobFiles} {s s' : P.State}
  {index : Fin P.chunks.length} {call : PutCall P.chunks.length κ}

/-- The files and the calls of each chunk of the payload. -/
structure Orderly (P : Puts κ) (files : Bytes → BlobFiles) (s : P.State) : Prop where
  missing : ∀ index, (files (P.digestOf (.own index))).final = none →
    Progressed (P.chunks.get index) (s.files (P.digestOf (.own index)))
      (s.stage (.own index))
  present : ∀ index file, (files (P.digestOf (.own index))).final = some file →
    s.files (P.digestOf (.own index)) =
      files (P.digestOf (.own index)) ∧
    ∀ call, P.digestOf call = P.digestOf (.own index) →
      Settled (s.stage call)

theorem Orderly.start : Orderly P files ⟨files, fun _ => .checking⟩ where
  missing _ hnone := hnone
  present _ _ _ := ⟨rfl, fun _ _ => trivial⟩

variable (hdistinguishes : Distinguishes P files)
  (hseparate : Separate P files)

include hdistinguishes hseparate in
/-- A chunk whose call has returned is in the store. -/
theorem Orderly.get (h : Orderly P files s) (hdone : s.stage (.own index) = .done) :
    (s.files (P.digestOf (.own index))).get P.codec
      (P.digestOf (.own index)) = .ok (some (P.chunks.get index)) := by
  obtain ⟨file, hfinal, hcontents⟩ : ∃ file,
      (s.files (P.digestOf (.own index))).final = some file ∧
      (s.files (P.digestOf (.own index))).contents file = P.chunks.get index := by
    cases hfiles : (files (P.digestOf (.own index))).final with
    | none =>
      have hprogressed := h.missing index hfiles
      rw [hdone] at hprogressed
      exact hprogressed
    | some file =>
      rw [(h.present index file hfiles).1]
      exact ⟨file, hfiles, hseparate.intact index file hfiles⟩
  have hmatches := digestMatches_self (hdistinguishes.length index)
  simp only [BlobFiles.get, hfinal, hcontents]
  exact if_pos hmatches

/-- A call that has failed has failed because a file operation failed. -/
theorem Orderly.fault_eq_true (h : Orderly P files s)
    {fault : Bool} (hfailed : s.stage (.own index) = .failed fault) : fault = true := by
  cases hfiles : (files (P.digestOf (.own index))).final with
  | none =>
    have hprogressed := h.missing index hfiles
    rw [hfailed] at hprogressed
    exact hprogressed
  | some file =>
    have hsettled := (h.present index file hfiles).2 (.own index) rfl
    rw [hfailed] at hsettled
    exact hsettled

theorem Orderly.eq_done (h : Orderly P files s) (hended : (s.stage (.own index)).ended)
    (hfault : s.stage (.own index) ≠ .failed true) : s.stage (.own index) = .done := by
  cases hstage : s.stage (.own index) with
  | done => rfl
  | failed fault =>
    obtain rfl := h.fault_eq_true hstage
    exact absurd hstage hfault
  | _ => simp [hstage, PutStage.ended] at hended

variable [DecidableEq κ]

include hdistinguishes hseparate in
theorem Orderly.step (h : Orderly P files s) (hstep : P.Step s s') : Orderly P files s' := by
  obtain ⟨call, hput⟩ := hstep
  rename_i files' stage'
  change Orderly P files
    ⟨update s.files (P.digestOf call) files',
      update s.stage call stage'⟩
  refine ⟨fun index hnone => ?_, fun index file hfile => ?_⟩
  · by_cases hdigest : P.digestOf call = P.digestOf (.own index)
    -- The call is that of the chunk itself.
    · have hchunk := hdistinguishes.calls index call hdigest
      have hcall : call = .own index := by
        by_contra hne
        exact hseparate.unshared index call hne hnone hchunk
      subst hcall
      simp only [update_self]
      exact (h.missing index hnone).step hput
    · have hne : PutCall.own index ≠ call := fun heq => hdigest (heq ▸ rfl)
      simp only [update_of_ne hne, update_of_ne (Ne.symm hdigest)]
      exact h.missing index hnone
  · obtain ⟨hsame, hsettled⟩ := h.present index file hfile
    by_cases hdigest : P.digestOf call = P.digestOf (.own index)
    · have hput' : PutStep P.codec (P.chunkOf call)
          (files (P.digestOf (.own index))) (s.stage call) files' stage' := by
        rw [← hsame, ← hdigest]
        exact hput
      have hmatches : digestMatches P.codec
          (P.codec.hashDomain .payloadChunk (P.chunkOf call))
          ((files (P.digestOf (.own index))).contents file) := by
        rw [hseparate.intact index file hfile, hdistinguishes.calls index call hdigest]
        exact digestMatches_self (hdistinguishes.length index)
      obtain ⟨rfl, hstage⟩ := (hsettled call hdigest).step hfile hmatches hput'
      rw [hdigest]
      refine ⟨update_self .., fun other hother => ?_⟩
      dsimp only
      by_cases hne : other = call
      · rw [hne, update_self]
        exact hstage
      · rw [update_of_ne hne]
        exact hsettled other hother
    · refine ⟨(update_of_ne (Ne.symm hdigest) ..).trans hsame, fun other hother => ?_⟩
      have hne : other ≠ call := fun heq => hdigest (heq ▸ hother)
      dsimp only
      rw [update_of_ne hne]
      exact hsettled other hother

include hdistinguishes hseparate in
theorem Orderly.run (h : Orderly P files s) (hrun : ReflTransGen P.Step s s') :
    Orderly P files s' :=
  Reachable.invariant (fun h hstep => h.step hdistinguishes hseparate hstep) hrun h

/-! ### Going on -/

/-- An upper bound of the number of operations that a call has left. -/
def PutStage.remaining (chunk : Bytes) : PutStage → ℕ
  | .checking => chunk.length + 7
  | .making => chunk.length + 6
  | .opening => chunk.length + 5
  | .writing _ offset => chunk.length - offset + 4
  | .reopening => 3
  | .syncing => 2
  | .moving => 1
  | .done | .failed _ => 0

theorem PutStep.remaining_lt {files files' : BlobFiles} {stage stage' : PutStage}
    (h : PutStep codec chunk files stage files' stage') :
    stage'.remaining chunk < stage.remaining chunk := by
  cases h with
  | fault hrunning => cases stage <;> simp [PutStage.remaining, PutStage.ended] at hrunning ⊢
  | lost hstage _ => rcases hstage with rfl | rfl <;> simp [PutStage.remaining]
  | write count hcount hlength => simp only [PutStage.remaining]; omega
  | _ => simp [PutStage.remaining]

theorem BlobStep.remaining_le (h : P.Step s s')
    (call : PutCall P.chunks.length κ) : (s'.stage call).remaining (P.chunkOf call) ≤
      (s.stage call).remaining (P.chunkOf call) := by
  obtain ⟨moved, hput⟩ := h
  by_cases hcall : call = moved
  · subst hcall
    simpa using hput.remaining_lt.le
  · simp [hcall]

theorem BlobStep.remaining_lt (h : P.Step s s') (hmoves : s'.stage call ≠ s.stage call) :
    (s'.stage call).remaining (P.chunkOf call) < (s.stage call).remaining (P.chunkOf call) := by
  obtain ⟨moved, hput⟩ := h
  by_cases hcall : call = moved
  · subst hcall
    simpa using hput.remaining_lt
  · simp [hcall] at hmoves

theorem BlobStep.sum_remaining_lt (h : P.Step s s')
    (hmoves : s'.stage (.own index) ≠ s.stage (.own index)) :
    ∑ index, (s'.stage (.own index)).remaining (P.chunks.get index) <
      ∑ index, (s.stage (.own index)).remaining (P.chunks.get index) :=
  Finset.sum_lt_sum (fun index _ => h.remaining_le (.own index))
    ⟨index, Finset.mem_univ _, h.remaining_lt hmoves⟩

/-- A call that has returned has returned. -/
theorem BlobStep.stage_done (h : P.Step s s') (hdone : s.stage call = .done) :
    s'.stage call = .done := by
  by_contra hnot
  have hmoves : s'.stage call ≠ s.stage call := by rw [hdone]; exact hnot
  have hlt := h.remaining_lt hmoves
  rw [hdone] at hlt
  exact Nat.not_lt_zero _ hlt

/-- A call that has not ended can go on without a fault. -/
theorem PutStep.exists_of_progressed {files : BlobFiles} {stage : PutStage}
    (h : Progressed chunk files stage) (hrunning : stage.ended = false) :
    ∃ files' stage', PutStep codec chunk files stage files' stage' ∧ stage' ≠ .failed true := by
  cases stage with
  | checking => exact ⟨_, _, .missing h, nofun⟩
  | making => exact ⟨_, _, .make, nofun⟩
  | opening =>
    cases htemporary : files.temporary with
    | none => exact ⟨_, _, .create htemporary, nofun⟩
    | some file => exact ⟨_, _, .truncate htemporary, nofun⟩
  | writing file offset =>
    obtain ⟨-, -, -, hoffset⟩ := h
    rcases hoffset.eq_or_lt with rfl | hlt
    · exact ⟨_, _, .written, nofun⟩
    · exact ⟨_, _, .write 1 Nat.one_pos hlt, nofun⟩
  | reopening =>
    obtain ⟨-, file, htemporary, -⟩ := h
    exact ⟨_, _, .reopen (by simp [htemporary]), nofun⟩
  | syncing => exact ⟨_, _, .sync, nofun⟩
  | moving =>
    obtain ⟨-, file, htemporary, -⟩ := h
    exact ⟨_, _, .rename htemporary, nofun⟩
  | done => cases hrunning
  | failed fault => cases hrunning

include hdistinguishes hseparate in
theorem Orderly.exists_step (h : Orderly P files s)
    (hrunning : (s.stage (.own index)).ended = false) : ∃ s', P.Step s s' ∧
      s'.stage (.own index) ≠ s.stage (.own index) ∧ s'.stage (.own index) ≠ .failed true := by
  obtain ⟨files', stage', hput, hfault⟩ : ∃ files' stage', PutStep P.codec (P.chunks.get index)
      (s.files (P.digestOf (.own index))) (s.stage (.own index)) files' stage' ∧
        stage' ≠ .failed true := by
    cases hfiles : (files (P.digestOf (.own index))).final with
    | none => exact PutStep.exists_of_progressed (h.missing index hfiles) hrunning
    | some file =>
      obtain ⟨hsame, hsettled⟩ := h.present index file hfiles
      replace hsettled := hsettled (.own index) rfl
      generalize s.stage (.own index) = stage at hsettled hrunning
      cases stage with
      | checking =>
        refine ⟨_, _, .found (hsame ▸ hfiles) ?_, nofun⟩
        rw [hsame, hseparate.intact index file hfiles]
        exact digestMatches_self (hdistinguishes.length index)
      | done => cases hrunning
      | failed fault => cases hrunning
      | _ => exact hsettled.elim
  refine ⟨_, @BlobStep.put _ _ P.codec P.chunkOf s (.own index) _ _ hput, ?_,
    by simpa using hfault⟩
  intro heq
  have hlt := hput.remaining_lt
  simp only [update_self] at heq
  rw [heq] at hlt
  exact lt_irrefl _ hlt

variable {trace : ℕ → P.State}

/-- The calls of a payload end. -/
theorem BlobTrace.exists_ended (h : BlobTrace P files trace) :
    ∃ time, ∀ index, ((trace time).stage (.own index)).ended := by
  let rank (s : P.State) : ℕ :=
    ∑ index, (s.stage (.own index)).remaining (P.chunks.get index)
  refine @Reachable.eventually_of_rank _ (fun s => ∀ index, (s.stage (.own index)).ended) trace rank
    (fun time => ?_) fun time hnot => ?_
  · rcases h.step time with heq | hstep
    · rw [heq]
    · exact Finset.sum_le_sum fun index _ => hstep.remaining_le (.own index)
  · push Not at hnot
    obtain ⟨index, hrunning⟩ := hnot
    obtain ⟨later, hlater, hmoves⟩ := h.fair time index (by simpa using hrunning)
    refine ⟨later, hlater, ?_⟩
    rcases h.step later with heq | hstep
    · rw [heq] at hmoves
      exact absurd rfl hmoves
    · exact hstep.sum_remaining_lt hmoves

theorem BlobTrace.blobRun (h : BlobTrace P files trace) (time : ℕ) :
    BlobRun P files (trace time) := by
  induction time with
  | zero => rw [h.start]; exact .refl
  | succ time ih =>
    rcases h.step time with heq | hstep
    · rw [heq]; exact ih
    · exact ih.tail hstep

/-! ### Runs without a fault -/

/-- Operations of one call, by its files and its stage. -/
def PutRun (codec : Codec) (chunk : Bytes) : BlobFiles × PutStage → BlobFiles × PutStage → Prop :=
  ReflTransGen fun p p' => PutStep codec chunk p.1 p.2 p'.1 p'.2

theorem PutRun.step {p : BlobFiles × PutStage} {files files' : BlobFiles} {stage stage' : PutStage}
    (h : PutRun codec chunk p (files, stage))
    (hput : PutStep codec chunk files stage files' stage') :
    PutRun codec chunk p (files', stage') :=
  h.tail hput

/-- The operations of one call are operations on the store. -/
theorem PutRun.reaches {p : BlobFiles × PutStage}
    (h : PutRun P.codec (P.chunkOf call) (s.files (P.digestOf call), s.stage call) p) :
    ReflTransGen P.Step s ⟨update s.files (P.digestOf call) p.1,
        update s.stage call p.2⟩ := by
  induction h with
  | refl => simpa using ReflTransGen.refl
  | @tail p p' _ hput ih =>
    have hput' : PutStep P.codec (P.chunkOf call)
        (update s.files (P.digestOf call) p.1
          (P.digestOf call))
        (update s.stage call p.2 call) p'.1 p'.2 := by
      simpa using hput
    have hstep := @BlobStep.put _ _ P.codec P.chunkOf
      ⟨update s.files (P.digestOf call) p.1,
        update s.stage call p.2⟩ call _ _ hput'
    simp only [Puts.digestOf, update_idem] at hstep
    exact ih.tail hstep

/-- A call on a chunk that is not stored yet can come to the rename of its temporary file. -/
theorem PutRun.exists_moving (codec : Codec) (chunk : Bytes) {files : BlobFiles}
    (hfinal : files.final = none) :
    ∃ files', PutRun codec chunk (files, .checking) (files', .moving) ∧ files'.final = none ∧
      files'.temporary.isSome := by
  obtain ⟨opened, file, hopen, hopenedFinal, hopenedTemporary⟩ : ∃ opened file,
      PutStep codec chunk files .opening opened (.writing file 0) ∧ opened.final = none ∧
        opened.temporary.isSome := by
    cases htemporary : files.temporary with
    | none => exact ⟨_, _, .create htemporary, hfinal, rfl⟩
    | some file => exact ⟨_, _, .truncate htemporary, hfinal, by simp [htemporary]⟩
  obtain ⟨written, hwrite, hwrittenFinal, hwrittenTemporary⟩ : ∃ written,
      PutRun codec chunk (opened, .writing file 0) (written, .writing file chunk.length) ∧
        written.final = none ∧ written.temporary.isSome := by
    rcases Nat.eq_zero_or_pos chunk.length with hempty | hpos
    · rw [hempty]
      exact ⟨_, .refl, hopenedFinal, hopenedTemporary⟩
    · have hput := @PutStep.write codec chunk opened file 0 chunk.length hpos (by omega)
      rw [Nat.zero_add] at hput
      exact ⟨_, .single hput, hopenedFinal, hopenedTemporary⟩
  have hbefore : PutRun codec chunk (files, .checking) (opened, .writing file 0) :=
    ((PutRun.step .refl (.missing hfinal)).step .make).step hopen
  have hafter : PutRun codec chunk (written, .writing file chunk.length) (written, .moving) :=
    ((PutRun.step .refl .written).step (.reopen hwrittenTemporary)).step .sync
  exact ⟨written, (hbefore.trans hwrite).trans hafter, hwrittenFinal, hwrittenTemporary⟩

include hdistinguishes hseparate in
/-- The calls of a payload can return. -/
theorem exists_done : ∃ s, BlobRun P files s ∧ ∀ index, s.stage (.own index) = .done := by
  -- The calls go on as long as one of them has not ended.
  suffices ∀ n s, ∑ index, (s.stage (.own index)).remaining (P.chunks.get index) = n →
      BlobRun P files s → (∀ index, s.stage (.own index) ≠ .failed true) →
      ∃ s, BlobRun P files s ∧ ∀ index, s.stage (.own index) = .done from
    this _ _ rfl .refl fun _ => nofun
  intro n
  induction n using Nat.strong_induction_on with
  | _ n ih =>
    rintro s rfl hrun hfault
    have horderly := Orderly.start.run hdistinguishes hseparate hrun
    by_cases hended : ∀ index, (s.stage (.own index)).ended
    · exact ⟨s, hrun, fun index => horderly.eq_done (hended index) (hfault index)⟩
    push Not at hended
    obtain ⟨index, hrunning⟩ := hended
    obtain ⟨s', hstep, hmoves, hfault'⟩ :=
      horderly.exists_step hdistinguishes hseparate (by simpa using hrunning)
    refine ih _ (hstep.sum_remaining_lt hmoves) s' rfl (hrun.tail hstep) fun other => ?_
    by_cases heq : other = index
    · exact heq ▸ hfault'
    · obtain ⟨moved, hput⟩ := hstep
      obtain rfl : moved = .own index := by
        by_contra hne
        exact hmoves (update_of_ne (Ne.symm hne) ..)
      dsimp only
      rw [update_of_ne (by simpa using heq)]
      exact hfault other

/-- Of two calls on a chunk that is not stored yet, one can find its temporary file gone. -/
theorem exists_failed (hne : call ≠ .own index) (hchunk : P.chunkOf call = P.chunks.get index)
    (hfinal : (files (P.digestOf (.own index))).final = none) :
    ∃ s, BlobRun P files s ∧ s.stage (.own index) = .failed false := by
  have hdigest : P.digestOf call = P.digestOf (.own index) := by
    rw [Puts.digestOf, hchunk]
    rfl
  obtain ⟨first, hfirst, hfirstFinal, -⟩ :=
    PutRun.exists_moving P.codec (P.chunkOf (.own index)) hfinal
  obtain ⟨second, hsecond, -, hsecondTemporary⟩ :=
    PutRun.exists_moving P.codec (P.chunkOf call) hfirstFinal
  obtain ⟨file, hfile⟩ := Option.isSome_iff_exists.1 hsecondTemporary
  have hmoving := @PutRun.reaches _ P ⟨files, fun _ => .checking⟩ (.own index) _ _
    hfirst
  have hdone := (hsecond.step (.rename hfile))
  have hother := @PutRun.reaches _ P
    ⟨update files (P.digestOf (.own index)) first,
      update (fun _ => .checking) (.own index) .moving⟩ call _
    ({ second with final := some file, temporary := none }, .done)
    (by simpa [hdigest, hne] using hdone)
  have hlost := @BlobStep.put _ _ P.codec P.chunkOf
    ⟨update (update files (P.digestOf (.own index)) first)
        (P.digestOf call) { second with final := some file, temporary := none },
      update (update (fun _ => .checking) (.own index) .moving) call .done⟩
    (.own index) _ _ (.lost (.inr ?_) ?_)
  · exact ⟨_, (hmoving.trans hother).tail hlost, update_self ..⟩
  · simp [Ne.symm hne]
  · simp only [hdigest]
    unfold Puts.digestOf
    rw [update_self]

include hdistinguishes in
/-- A call on a chunk that is stored otherwise fails. -/
theorem exists_damaged {file : ℕ} (hfinal : (files (P.digestOf (.own index))).final = some file)
    (hcontents : (files (P.digestOf (.own index))).contents file ≠ P.chunks.get index) :
    ∃ s, BlobRun P files s ∧ s.stage (.own index) = .failed false := by
  have hput := @PutStep.damaged P.codec (P.chunkOf (.own index)) _ _ hfinal fun hmatches =>
    hcontents (hdistinguishes.stored index file hfinal
      (by simp [digestMatches] at hmatches; exact hmatches.2))
  have hrun := @PutRun.reaches _ P ⟨files, fun _ => .checking⟩ (.own index) _ _
    (PutRun.step .refl hput)
  exact ⟨_, hrun, update_self ..⟩

include hdistinguishes hseparate in
/-- What the calls of a payload have put can be read at any later time. -/
theorem ReadsLater.eq_ok (hrun : BlobRun P files s) (hdone : ∀ index, s.stage (.own index) = .done)
    {get : ContentAddressedBlobStore} (hreads : ReadsLater P s get) :
    ∀ chunk ∈ P.chunks, get (P.codec.hashDomain .payloadChunk chunk) = .ok (some chunk) := by
  intro chunk hchunk
  obtain ⟨index, rfl⟩ := get_of_mem hchunk
  obtain ⟨s', hlater, hread⟩ := hreads index
  have horderly := Orderly.start.run hdistinguishes hseparate (hrun.trans hlater)
  have hdone' := Reachable.invariant (fun h hstep => hstep.stage_done h) hlater (hdone index)
  exact hread.trans (horderly.get hdistinguishes hseparate hdone')

/-- A payload that is put into a store of files comes back, unless a file operation fails, exactly if it is
    within the limit of loading and its chunks are not disturbed. -/
theorem roundTrips_iff {payload : Bytes} {options : EnvelopeBlobOptions}
    {manifest : PayloadManifest}
    (hstore : storeEnvelopePayload P.codec payload options = .ok (manifest, P.chunks))
    (hdistinguishes : Distinguishes P files) : RoundTrips P payload manifest files ↔
      payload.length ≤ 16 * 1024 * 1024 ∧ Separate P files := by
  constructor
  · intro h
    have hseparate : Separate P files := by
      refine ⟨fun index file hfinal => ?_, fun index call hne hfinal hchunk => ?_⟩
      · by_contra hcontents
        obtain ⟨s, hrun, hfailed⟩ := exists_damaged hdistinguishes hfinal hcontents
        cases h.faulted s hrun index false hfailed
      · obtain ⟨s, hrun, hfailed⟩ := exists_failed hne hchunk hfinal
        cases h.faulted s hrun index false hfailed
    obtain ⟨s, hrun, hdone⟩ := exists_done hdistinguishes hseparate
    have hreads : ReadsLater P s fun digest => (s.files digest).get P.codec digest :=
      fun _ => ⟨s, .refl, rfl⟩
    refine ⟨?_, hseparate⟩
    have hget := hreads.eq_ok hdistinguishes hseparate hrun hdone
    exact (loadEnvelopePayload_eq_ok_iff hstore hget).1 (h.loads s hrun hdone _ hreads)
  · rintro ⟨hlimit, hseparate⟩
    have horderly : ∀ {s}, BlobRun P files s → Orderly P files s :=
      Orderly.start.run hdistinguishes hseparate
    refine ⟨fun s hrun index fault hfailed => (horderly hrun).fault_eq_true hfailed,
      fun s hrun hdone get hreads => ?_,
      fun s hrun index hrunning => (horderly hrun).exists_step hdistinguishes hseparate hrunning,
      fun trace htrace hfault => ?_⟩
    · have hget := hreads.eq_ok hdistinguishes hseparate hrun hdone
      exact (loadEnvelopePayload_eq_ok_iff hstore hget).2 hlimit
    · obtain ⟨time, hended⟩ := htrace.exists_ended
      exact ⟨time, fun index =>
        (horderly (htrace.blobRun time)).eq_done (hended index) (hfault time index)⟩

end

/-! ### Two chunks -/

namespace TwoChunks

/-- A codec whose digests are the first 32 bytes, filled up with zeros. -/
def codec : Codec :=
  { Codec.ofTables [] [] [] [] [] with
    hashDomain := fun _ bytes => (bytes ++ replicate 32 0).take 32 }

/-- Chunks of one byte. -/
def options : EnvelopeBlobOptions := ⟨0, 1⟩

def manifest (left right : UInt8) : PayloadManifest := payloadManifest codec [[left], [right]]

/-- Two chunks are put, and no other calls are made. -/
abbrev puts (left right : UInt8) : Puts Empty := ⟨codec, [[left], [right]], nofun⟩

theorem distinguishes (left right : UInt8) : Distinguishes (puts left right) fun _ => {} where
  length index := by simp [Puts.digestOf, puts, codec]
  calls
    | index, .own other, h => by
      match index, other with
      | 0, 0 | 1, 1 => rfl
      | 0, 1 | 1, 0 => simpa [Puts.digestOf, Puts.chunkOf, puts, codec] using h
  stored := nofun

/-- Two chunks that differ are stored and come back. -/
theorem roundTrips : storeEnvelopePayload codec [1, 2] options = .ok (manifest 1 2, [[1], [2]]) ∧
      RoundTrips (puts 1 2) [1, 2] (manifest 1 2) fun _ => {} := by
  have hstore : storeEnvelopePayload codec [1, 2] options = .ok (manifest 1 2, [[1], [2]]) := by
    rfl
  refine ⟨hstore, (roundTrips_iff hstore (distinguishes 1 2)).2 ⟨by decide, nofun, ?_⟩⟩
  rintro index (other | other) hne - hchunk
  · match index, other with
    | 0, 0 | 1, 1 => exact hne rfl
    | 0, 1 | 1, 0 => simp [Puts.chunkOf, puts] at hchunk
  · exact other.elim

/-- Of two equal chunks one can fail without a fault. -/
theorem not_roundTrips :
    storeEnvelopePayload codec [1, 1] options = .ok (manifest 1 1, [[1], [1]]) ∧
      Distinguishes (puts 1 1) (fun _ => {}) ∧
      ¬ RoundTrips (puts 1 1) [1, 1] (manifest 1 1) fun _ => {} := by
  refine ⟨by rfl, distinguishes 1 1, fun h => ?_⟩
  obtain ⟨s, hrun, hfailed⟩ :=
    @exists_failed _ (puts 1 1) (fun _ => {}) 0 (.own 1) _ (by decide) rfl rfl
  cases h.faulted s hrun 0 false hfailed

end TwoChunks

end Chronolog
