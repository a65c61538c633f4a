import Mathlib.Data.List.Chain
import GrpcWeb.Js.Text

/-!
# The XHR transport

The browser exposes the response body as a text that grows. `onProgressEvent` hands over what is new
since the event before: `substr` from the cursor `index`, which is undefined at first, turned into
bytes by `stringToArrayBuffer`. The text is `xUserDefined` of the body, one code unit for each byte.

* `codePointAt_eq_polyfill`: the polyfill for older browsers is the engine's `codePointAt`.
* `progress_exact`: the chunks handed over are the bytes exposed so far, each once and in order.
-/

namespace GrpcWeb.Client

open Js

/-! ## Code points -/

/-- `s.charCodeAt(i)`; `none` is NaN. -/
def charCodeAt (s : JsString) (i : ℕ) : Option ℕ := s[i]?.map UInt16.toNat

def isLeadingSurrogate (c : UInt16) : Bool := 0xD800 ≤ c && c ≤ 0xDBFF

def isTrailingSurrogate (c : UInt16) : Bool := 0xDC00 ≤ c && c ≤ 0xDFFF

/-- `s.codePointAt(i)` as ECMA-262 has it; `none` is undefined. -/
def codePointAt (s : JsString) (i : ℕ) : Option ℕ :=
  match s[i]?, s[i + 1]? with
  | none, _ => none
  | some first, none => some first.toNat
  | some first, some second =>
    if isLeadingSurrogate first && isTrailingSurrogate second then
      some ((first.toNat - 0xD800) * 0x400 + (second.toNat - 0xDC00) + 0x10000)
    else some first.toNat

def codePointAtPolyfill (str : JsString) (index : ℕ) : Option ℕ :=
  match charCodeAt str index with
  | none => none
  | some code =>
    if 0xD800 ≤ code ∧ code ≤ 0xDBFF then
      match charCodeAt str (index + 1) with
      | none => some code
      | some surr =>
        if 0xDC00 ≤ surr ∧ surr ≤ 0xDFFF then
          some (0x10000 + ((code - 0xD800) <<< 10) + (surr - 0xDC00))
        else some code
    else some code

theorem isLeadingSurrogate_iff {c : UInt16} :
    isLeadingSurrogate c = true ↔ 0xD800 ≤ c.toNat ∧ c.toNat ≤ 0xDBFF := by
  simp [isLeadingSurrogate, UInt16.le_iff_toNat_le]

theorem isTrailingSurrogate_iff {c : UInt16} :
    isTrailingSurrogate c = true ↔ 0xDC00 ≤ c.toNat ∧ c.toNat ≤ 0xDFFF := by
  simp [isTrailingSurrogate, UInt16.le_iff_toNat_le]

/-- **The polyfill is `codePointAt`**, also at lone and at paired surrogates. -/
theorem codePointAt_eq_polyfill : codePointAt = codePointAtPolyfill := by
  funext s i
  rw [codePointAt, codePointAtPolyfill, charCodeAt, charCodeAt]
  rcases s[i]? with _ | first
  · rfl
  rcases s[i + 1]? with _ | second
  · simp
  simp only [Option.map_some, Bool.and_eq_true, isLeadingSurrogate_iff, isTrailingSurrogate_iff,
    Nat.shiftLeft_eq]
  by_cases hl : 0xD800 ≤ first.toNat ∧ first.toNat ≤ 0xDBFF
  · by_cases ht : 0xDC00 ≤ second.toNat ∧ second.toNat ≤ 0xDFFF
    · have hcode : (first.toNat - 0xD800) * 0x400 + (second.toNat - 0xDC00) + 0x10000 =
          0x10000 + (first.toNat - 0xD800) * 2 ^ 10 + (second.toNat - 0xDC00) := by
        omega
      rw [if_pos ⟨hl, ht⟩, if_pos hl, if_pos ht, hcode]
    · rw [if_neg fun h => ht h.2, if_pos hl, if_neg ht]
  · rw [if_neg fun h => hl h.1, if_neg hl]

/-! ## Text to bytes -/

/-- `codePoint & 0xFF`, which is 0 when there is no code point. -/
def lowByte (codePoint : Option ℕ) : UInt8 := UInt8.ofNat (codePoint.getD 0 &&& 0xFF)

/-- `hasCodePointAt`: the engine has `String.prototype.codePointAt`. -/
def stringToArrayBuffer (hasCodePointAt : Bool) (str : JsString) : Bytes :=
  (List.range str.length).map fun i =>
    lowByte (if hasCodePointAt then codePointAt str i else codePointAtPolyfill str i)

theorem stringToArrayBuffer_eq (hasCodePointAt : Bool) (str : JsString) :
    stringToArrayBuffer hasCodePointAt str =
      (List.range str.length).map fun i => lowByte (codePointAt str i) := by
  simp [stringToArrayBuffer, codePointAt_eq_polyfill]

/-- What the page sees of a response in the charset x-user-defined. -/
def xUserDefined (bytes : Bytes) : JsString :=
  bytes.map fun b => if b < 0x80 then b.toUInt16 else 0xF700 + b.toUInt16

theorem length_xUserDefined (bytes : Bytes) : (xUserDefined bytes).length = bytes.length :=
  List.length_map ..

theorem isLeadingSurrogate_xUserDefined : ∀ b : UInt8,
    isLeadingSurrogate (if b < 0x80 then b.toUInt16 else 0xF700 + b.toUInt16) = false :=
  forall_byte (by decide +kernel)

theorem lowByte_xUserDefined : ∀ b : UInt8,
    lowByte (some (if b < 0x80 then b.toUInt16 else 0xF700 + b.toUInt16).toNat) = b :=
  forall_byte (by decide +kernel)

/-- A code unit that begins no surrogate pair is a code point. -/
theorem codePointAt_of_not_leading {s : JsString} {i : ℕ} {c : UInt16} (h : s[i]? = some c)
    (hc : isLeadingSurrogate c = false) : codePointAt s i = some c.toNat := by
  rw [codePointAt, h]
  rcases s[i + 1]? with _ | second
  · rfl
  · simp [hc]

/-- **The bytes come back**, whichever way the code points are read. -/
theorem stringToArrayBuffer_xUserDefined (hasCodePointAt : Bool) (bytes : Bytes) :
    stringToArrayBuffer hasCodePointAt (xUserDefined bytes) = bytes := by
  rw [stringToArrayBuffer_eq, length_xUserDefined]
  apply List.ext_getElem
  · simp
  intro i hi hb
  have hunit : (xUserDefined bytes)[i]? =
      some (if bytes[i] < 0x80 then bytes[i].toUInt16 else 0xF700 + bytes[i].toUInt16) := by
    simp [xUserDefined, hb]
  rw [List.getElem_map, List.getElem_range,
    codePointAt_of_not_leading hunit (isLeadingSurrogate_xUserDefined _)]
  exact lowByte_xUserDefined _

/-! ## Progress events -/

/-- `s.substr(start)`; an undefined start is 0. -/
def substr (s : JsString) (start : Option ℕ) : JsString := s.drop (start.getD 0)

/-- The transport: its cursor, which is undefined until the first event, and the chunks that it has
passed to `onChunk`. -/
structure XHR where
  index : Option ℕ := none
  chunks : List Bytes := []

/-- A progress event that exposes `response`. -/
def XHR.onProgressEvent (hasCodePointAt : Bool) (xhr : XHR) (response : JsString) : XHR :=
  let rawText := substr response xhr.index
  { index := some response.length,
    chunks := xhr.chunks ++ [stringToArrayBuffer hasCodePointAt rawText] }

/-- The events of a response, which expose its text up to the places `ends`. -/
def XHR.onProgressEvents (hasCodePointAt : Bool) (text : JsString) (xhr : XHR)
    (ends : List ℕ) : XHR :=
  ends.foldl (fun xhr stop => xhr.onProgressEvent hasCodePointAt (text.take stop)) xhr

theorem take_drop_xUserDefined (bytes : Bytes) (m n : ℕ) :
    ((xUserDefined bytes).take n).drop m = xUserDefined ((bytes.take n).drop m) := by
  simp [xUserDefined, List.map_take, List.map_drop]

/-- The transport stands behind the first `n` bytes: it has handed them over. -/
def XHR.HandedOver (bytes : Bytes) (xhr : XHR) (n : ℕ) : Prop :=
  xhr.index.getD 0 = (bytes.take n).length ∧ xhr.chunks.flatten = bytes.take n

/-- **One event** hands over the bytes between the cursor and the end of the text. -/
theorem XHR.HandedOver.onProgressEvent {bytes : Bytes} {xhr : XHR} {m n : ℕ}
    (h : xhr.HandedOver bytes m) (hmn : m ≤ n) (hasCodePointAt : Bool) :
    (xhr.onProgressEvent hasCodePointAt ((xUserDefined bytes).take n)).HandedOver bytes n := by
  constructor
  · simp [XHR.onProgressEvent, length_xUserDefined]
  · have hold : bytes.take m = (bytes.take n).take (bytes.take m).length := by
      rw [List.take_take, List.length_take, min_right_comm, Nat.min_eq_left hmn]
      exact List.take_eq_take_min
    calc
      (xhr.onProgressEvent hasCodePointAt ((xUserDefined bytes).take n)).chunks.flatten =
          bytes.take m ++ (bytes.take n).drop (bytes.take m).length := by
        rw [← h.1, ← h.2, XHR.onProgressEvent, substr, take_drop_xUserDefined,
          stringToArrayBuffer_xUserDefined, List.flatten_append, List.flatten_singleton]
      _ = bytes.take n := by
        nth_rewrite 1 [hold]
        exact List.take_append_drop ..

theorem XHR.HandedOver.onProgressEvents {bytes : Bytes} {xhr : XHR} {m : ℕ} {ends : List ℕ}
    (h : xhr.HandedOver bytes m) (hends : List.IsChain (· ≤ ·) (m :: ends))
    (hasCodePointAt : Bool) :
    (xhr.onProgressEvents hasCodePointAt (xUserDefined bytes) ends).HandedOver bytes
      (ends.getLast?.getD m) := by
  induction ends generalizing xhr m with
  | nil => exact h
  | cons n ends ih =>
    obtain ⟨hmn, hends⟩ := List.isChain_cons_cons.1 hends
    rw [List.getLast?_cons]
    exact ih (h.onProgressEvent hmn hasCodePointAt) hends

/-- **Every response byte is handed over once**: the events of a response, each of which exposes at
least as much of it as the one before, hand over the bytes that the last one exposes; and the bytes
of a text do not depend on how its code points are read. -/
theorem progress_exact :
    (∀ (hasCodePointAt : Bool) (bytes : Bytes) (ends : List ℕ), List.IsChain (· ≤ ·) ends →
      (XHR.onProgressEvents hasCodePointAt (xUserDefined bytes) {} ends).chunks.flatten =
        bytes.take (ends.getLast?.getD 0)) ∧
    ∀ str, stringToArrayBuffer true str = stringToArrayBuffer false str := by
  constructor
  · intro hasCodePointAt bytes ends hends
    have hstart : XHR.HandedOver bytes {} 0 := ⟨by simp, by simp⟩
    have hchain : List.IsChain (· ≤ ·) (0 :: ends) := by
      cases ends with
      | nil => exact .singleton _
      | cons n ends => exact .cons_cons (Nat.zero_le _) hends
    exact (hstart.onProgressEvents hchain hasCodePointAt).2
  · intro str
    rw [stringToArrayBuffer_eq, stringToArrayBuffer_eq]

/-- Three events, the second of which exposes nothing new. -/
theorem progress_exact_three :
    (XHR.onProgressEvents false (xUserDefined [0x41, 0xFF, 0x80, 0x00]) {}
      [1, 1, 3]).chunks.flatten = [0x41, 0xFF, 0x80] :=
  progress_exact.1 false [0x41, 0xFF, 0x80, 0x00] [1, 1, 3] (by decide)

end GrpcWeb.Client
