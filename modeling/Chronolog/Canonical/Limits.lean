import Chronolog.Canonical.Cbor

/-!
# Values within limits

A value respects the limits of a decoder if it is not nested too deeply and its parts are not
too long (`Respects`). The decoder wants more of the integers beyond 64 bits: it compares the
level of their payload with `<` where it compares the levels of all other values with `<=`, so
they need two levels below them (`HasRoom`).
-/

namespace Chronolog.Canonical

/-- A size is within a limit, and a size at all. -/
abbrev Within (limit size : ℕ) : Prop := size ≤ limit ∧ size ≤ maxSafeInteger

/-- The argument of an integer. -/
def magnitude (value : ℤ) : ℕ := (if value < 0 then -1 - value else value).toNat

/-- The value has at most so many levels, and its parts are within the limits. -/
def Respects (limits : DecodeLimits) : (levels : ℕ) → CborValue → Prop
  | 0, _ => False
  | _ + 1, .null => True
  | _ + 1, .boolean _ => True
  | _ + 1, .integer value => maxUint64 < magnitude value →
    Within limits.maxBlobBytes (BigEndian.minimalBytes (magnitude value)).length
  | _ + 1, .text value => Within limits.maxTextBytes (Chronolog.utf8 value).length
  | _ + 1, .bytes value => Within limits.maxBlobBytes value.length
  | levels + 1, .array items =>
    Within limits.maxArrayItems items.length ∧ ∀ item ∈ items, Respects limits levels item
  | levels + 1, .map entries => Within limits.maxMapItems entries.length ∧
    ∀ entry ∈ entries, Respects limits levels entry.1.toValue ∧ Respects limits levels entry.2

/-- Of so many levels, two are below each integer beyond 64 bits. -/
def HasRoom : (levels : ℕ) → CborValue → Prop
  | levels + 1, .integer value => maxUint64 < magnitude value → 1 < levels
  | levels + 1, .array items => ∀ item ∈ items, HasRoom levels item
  | levels + 1, .map entries =>
    ∀ entry ∈ entries, HasRoom levels entry.1.toValue ∧ HasRoom levels entry.2
  | _, _ => True

/-- The value is within what the decoder accepts. -/
def Fits (limits : DecodeLimits) (levels : ℕ) (value : CborValue) : Prop :=
  Respects limits levels value ∧ HasRoom levels value

/-- The encoded keys of the maps of so many levels are in the order in which they are written. -/
def InOrder : (levels : ℕ) → CborValue → Prop
  | levels + 1, .array items => ∀ item ∈ items, InOrder levels item
  | levels + 1, .map entries =>
    (entries.filterMap fun entry => (encodeKey entry.1).toOption).Pairwise KeyLe ∧
      ∀ entry ∈ entries, InOrder levels entry.2
  | _, _ => True

theorem magnitude_signed (negative : Bool) (n : ℕ) : magnitude (signed negative n) = n := by
  cases negative with
  | true =>
    rw [magnitude, signed, if_pos rfl]
    omega
  | false =>
    rw [magnitude, signed, if_neg Bool.false_ne_true]
    omega

section Parts

variable {limits : DecodeLimits} {levels : ℕ}

theorem fits_array_iff {items : List CborValue} : Fits limits (levels + 1) (.array items) ↔
      Within limits.maxArrayItems items.length ∧ ∀ item ∈ items, Fits limits levels item := by
  constructor
  · rintro ⟨⟨hsize, hitems⟩, hroom⟩
    exact ⟨hsize, fun item hitem => ⟨hitems item hitem, hroom item hitem⟩⟩
  · rintro ⟨hsize, hitems⟩
    exact ⟨⟨hsize, fun item hitem => (hitems item hitem).1⟩,
      fun item hitem => (hitems item hitem).2⟩

theorem fits_map_iff {entries : List (CborMapKey × CborValue)} :
    Fits limits (levels + 1) (.map entries) ↔ Within limits.maxMapItems entries.length ∧
      ∀ entry ∈ entries, Fits limits levels entry.1.toValue ∧ Fits limits levels entry.2 := by
  constructor
  · rintro ⟨⟨hsize, hentries⟩, hroom⟩
    refine ⟨hsize, fun entry hentry => ?_⟩
    obtain ⟨hkey, hvalue⟩ := hentries entry hentry
    obtain ⟨hkey', hvalue'⟩ := hroom entry hentry
    exact ⟨⟨hkey, hkey'⟩, hvalue, hvalue'⟩
  · rintro ⟨hsize, hentries⟩
    refine ⟨⟨hsize, fun entry hentry => ?_⟩, fun entry hentry => ?_⟩
    · exact ⟨(hentries entry hentry).1.1, (hentries entry hentry).2.1⟩
    · exact ⟨(hentries entry hentry).1.2, (hentries entry hentry).2.2⟩

theorem fits_integer {value : ℤ} (h : magnitude value ≤ maxUint64) :
    Fits limits (levels + 1) (.integer value) :=
  ⟨fun hlt => absurd hlt (by omega), fun hlt => absurd hlt (by omega)⟩

end Parts

/-! ## Larger limits -/

/-- Each limit is at most the other one. -/
structure DecodeLimits.AtMost (limits limits' : DecodeLimits) : Prop where
  arrayItems : limits.maxArrayItems ≤ limits'.maxArrayItems
  mapItems : limits.maxMapItems ≤ limits'.maxMapItems
  textBytes : limits.maxTextBytes ≤ limits'.maxTextBytes
  blobBytes : limits.maxBlobBytes ≤ limits'.maxBlobBytes

/-- With two more levels there is room for all integers. -/
theorem Respects.fits {limits limits' : DecodeLimits} (hlimits : limits.AtMost limits')
    {levels levels' : ℕ} {value : CborValue} (h : Respects limits levels value)
    (hlevels : levels + 2 ≤ levels') : Fits limits' levels' value := by
  induction levels generalizing levels' value with
  | zero => cases h
  | succ levels ih =>
    obtain ⟨levels', rfl⟩ : ∃ n, levels' = n + 1 := ⟨levels' - 1, by omega⟩
    have hlevels' : levels + 2 ≤ levels' := by omega
    cases value with
    | null => exact ⟨trivial, trivial⟩
    | boolean value => exact ⟨trivial, trivial⟩
    | integer value =>
      refine ⟨fun hbig => ?_, fun _ => by omega⟩
      exact ⟨(h hbig).1.trans hlimits.blobBytes, (h hbig).2⟩
    | text value => exact ⟨⟨h.1.trans hlimits.textBytes, h.2⟩, trivial⟩
    | bytes value => exact ⟨⟨h.1.trans hlimits.blobBytes, h.2⟩, trivial⟩
    | array items =>
      obtain ⟨hsize, hitems⟩ := h
      exact fits_array_iff.2 ⟨⟨hsize.1.trans hlimits.arrayItems, hsize.2⟩,
        fun item hitem => ih (hitems item hitem) hlevels'⟩
    | map entries =>
      obtain ⟨hsize, hentries⟩ := h
      exact fits_map_iff.2 ⟨⟨hsize.1.trans hlimits.mapItems, hsize.2⟩, fun entry hentry =>
        ⟨ih (hentries entry hentry).1 hlevels', ih (hentries entry hentry).2 hlevels'⟩⟩

end Chronolog.Canonical
