import Mathlib.Data.List.Basic
import Chronolog.Protocol.Bytes

/-!
# The lines of a response

The reader of an HTTP stream decodes the chunks as they arrive, and yields the lines that are complete.

* `lines_eq_splitLines`: however the bytes are cut into chunks, the lines are those of the whole text.
-/

namespace Chronolog.Rpc

open List

/-- The platform's streaming decoder. At the end of the stream, it replaces what is left of an
    incomplete character by one replacement character. -/
structure TextDecoder (σ : Type) where
  start : σ
  decode : σ → Bytes → List Char × σ
  incomplete : σ → Bool

variable {σ : Type} (decoder : TextDecoder σ)

def TextDecoder.finish (state : σ) : List Char :=
  if decoder.incomplete state then ['�'] else []

/-- The text of the chunks, from a state on. -/
def TextDecoder.decodeAll (state : σ) : List Bytes → List Char
  | [] => decoder.finish state
  | chunk :: chunks =>
    (decoder.decode state chunk).1 ++ decodeAll (decoder.decode state chunk).2 chunks

/-- The complete lines of what is buffered, and the rest. -/
def drain (buffered : List Char) : List (List Char) × List Char :=
  match _h : buffered.idxOf? '\n' with
  | none => ([], buffered)
  | some newline =>
    let (yielded, rest) := drain (buffered.drop (newline + 1))
    (buffered.take newline :: yielded, rest)
termination_by buffered.length
decreasing_by grind [idxOf?_eq_some_iff]

/-- What is yielded from a state of the decoder on. -/
def linesFrom (state : σ) (buffered : List Char) : List Bytes → List (List Char)
  | [] =>
    let buffered := buffered ++ decoder.finish state
    if buffered ≠ [] then [buffered] else []
  | chunk :: chunks =>
    let (text, state) := decoder.decode state chunk
    let (yielded, buffered) := drain (buffered ++ text)
    yielded ++ linesFrom state buffered chunks

def lines (chunks : List Bytes) : List (List Char) := linesFrom decoder decoder.start [] chunks

/-- The lines of a text, without an empty one at the end. -/
def splitLines (text : List Char) : List (List Char) :=
  let parts := text.splitOn '\n'
  if parts.getLast? = some [] then parts.dropLast else parts

theorem splitLines_of_not_mem {text : List Char} (h : '\n' ∉ text) :
    splitLines text = if text ≠ [] then [text] else [] := by
  have hparts : text.splitOn '\n' = [text] := splitOnP_eq_singleton (by grind)
  cases text <;> simp [splitLines, hparts]

theorem splitLines_line {line rest : List Char} (h : '\n' ∉ line) :
    splitLines (line ++ '\n' :: rest) = line :: splitLines rest := by
  have hparts : (line ++ '\n' :: rest).splitOn '\n' = line :: rest.splitOn '\n' :=
    splitOnP_append_cons_of_forall_mem (by grind) _ (by decide) _
  have hne : rest.splitOn '\n' ≠ [] := splitOnP_ne_nil _ _
  rw [splitLines, splitLines, hparts, getLast?_cons_of_ne_nil hne,
    dropLast_cons_of_ne_nil hne]
  split_ifs <;> rfl

/-- The lines that are taken out come first, whatever follows. -/
theorem drain_spec (buffered rest : List Char) : '\n' ∉ (drain buffered).2 ∧
      splitLines (buffered ++ rest) = (drain buffered).1 ++ splitLines ((drain buffered).2 ++ rest) := by
  fun_induction drain buffered with
  | case1 buffered h => exact ⟨idxOf?_eq_none_iff.1 h, rfl⟩
  | case2 buffered newline h yielded tail hdrain ih =>
    obtain ⟨hlt, hnewline, hbefore⟩ := idxOf?_eq_some_iff.1 h
    have hline : '\n' ∉ buffered.take newline := by
      rw [mem_take_iff_getElem]
      rintro ⟨i, hi, heq⟩
      exact hbefore i (by omega) heq
    have hsplit : buffered = buffered.take newline ++ '\n' :: buffered.drop (newline + 1) := by
      rw [← hnewline, getElem_cons_drop, take_append_drop]
    rw [hdrain] at ih
    refine ⟨ih.1, ?_⟩
    conv_lhs => rw [hsplit]
    rw [append_assoc, cons_append, splitLines_line hline, ih.2, cons_append]

/-- What is buffered is the beginning of a line, before the rest of the text. -/
theorem linesFrom_eq (chunks : List Bytes) (state : σ) {buffered : List Char}
    (h : '\n' ∉ buffered) : linesFrom decoder state buffered chunks =
      splitLines (buffered ++ decoder.decodeAll state chunks) := by
  induction chunks generalizing state buffered with
  | nil =>
    have hfinish : '\n' ∉ buffered ++ decoder.finish state := by
      grind [TextDecoder.finish]
    exact (splitLines_of_not_mem hfinish).symm
  | cons chunk chunks ih =>
    obtain ⟨htail, hlines⟩ := drain_spec (buffered ++ (decoder.decode state chunk).1)
      (decoder.decodeAll (decoder.decode state chunk).2 chunks)
    rw [TextDecoder.decodeAll, ← append_assoc, hlines, ← ih _ htail]
    rfl

/-- If the decoder gives one text for all chunkings, the lines are those of the whole text. -/
theorem lines_eq_splitLines (h : ∀ chunks chunks' : List Bytes, chunks.flatten = chunks'.flatten →
      decoder.decodeAll decoder.start chunks = decoder.decodeAll decoder.start chunks')
    (chunks : List Bytes) :
    lines decoder chunks = splitLines (decoder.decodeAll decoder.start [chunks.flatten]) := by
  rw [lines, linesFrom_eq decoder chunks decoder.start not_mem_nil, nil_append]
  exact congrArg splitLines (h chunks [chunks.flatten] (by simp))

/-- A decoder of single bytes. -/
def latin1 :
    TextDecoder Unit := ⟨(), fun _ bytes => (bytes.map (Char.ofNat ·.toNat), ()), fun _ => false⟩

theorem lines_eq_splitLines_latin1 : lines latin1 [[104], [], [105, 10], [111]] =
      splitLines (latin1.decodeAll () [[104, 105, 10, 111]]) := by
  have hall : ∀ chunks, latin1.decodeAll () chunks = chunks.flatten.map (Char.ofNat ·.toNat) := by
    intro chunks
    induction chunks with
    | nil => rfl
    | cons chunk chunks ih => rw [TextDecoder.decodeAll, ih, flatten_cons, map_append]; rfl
  refine lines_eq_splitLines latin1 (fun chunks chunks' heq => ?_) [[104], [], [105, 10], [111]]
  exact (hall chunks).trans ((congrArg _ heq).trans (hall chunks').symm)

end Chronolog.Rpc
