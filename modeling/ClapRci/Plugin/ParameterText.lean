import ClapRci.Core.StringCopy
import ClapRci.Plugin.HostEvents
import ClapRci.Server.Metadata

/-!
# Parameter texts (`plugin/coreplugin.cpp`, `plugin/parameter/decibel_valuetype.cpp`)

The host turns values into texts and texts into values by two callbacks that are `noexcept`.
One of them ends in `std::stod`, which throws on what is no number, the other in
`safe_str_copy`, with the size that the host passes.

`texts_in_bounds_iff`: both callbacks return, and keep to the buffer, exactly when the id is
unknown, or the text has a number and the size is enough for the copy.
-/

namespace ClapRci

open Decimal (isDigit)

/-! ## What `std::stod` reads -/

def toLower (b : UInt8) : UInt8 := if 65 ≤ b.toNat ∧ b.toNat ≤ 90 then b + 32 else b

def isHexDigit (b : UInt8) : Bool :=
  isDigit b || (97 ≤ (toLower b).toNat && (toLower b).toNat ≤ 102)

/-- Digits with a point among them or not, one digit at least. -/
def mantissa (digit : UInt8 → Bool) (str : StdString) : Option StdString :=
  let whole := str.takeWhile digit
  match str.dropWhile digit with
  | [] => if whole = [] then none else some whole
  | b :: rest =>
    if b = 46 then
      let fraction := rest.takeWhile digit
      if whole = [] ∧ fraction = [] then none else some (whole ++ 46 :: fraction)
    else if whole = [] then none
    else some whole

/-- The exponent that comes next: its marker, a sign or none, digits. Without digits there is
none, and the number ends before the marker. -/
def exponent (marker : UInt8) (str : StdString) : StdString :=
  match str with
  | [] => []
  | b :: rest =>
    if toLower b ≠ marker then []
    else
      let unsigned := (takeSign rest).2
      let digits := unsigned.takeWhile isDigit
      if digits = [] then []
      else b :: rest.take (rest.length - unsigned.length) ++ digits

/-- A number with this kind of digits and this marker of the exponent. -/
def number (digit : UInt8 → Bool) (marker : UInt8) (str : StdString) : Option StdString :=
  (mantissa digit str).map fun m => m ++ exponent marker (str.drop m.length)

/-- `0x` and a number with hexadecimal digits; the marker is `p`. -/
def hexadecimal (str : StdString) : Option StdString :=
  match str with
  | zero :: x :: rest =>
    if zero = 48 ∧ toLower x = 120 then
      (number isHexDigit 112 rest).map fun n => zero :: x :: n
    else none
  | _ => none

/-- A word in letters of either case. -/
def keyword (word str : StdString) : Option StdString :=
  if (str.take word.length).map toLower = word then some (str.take word.length) else none

/-- The characters in brackets behind `nan`. -/
def payload (str : StdString) : StdString :=
  match str with
  | [] => []
  | b :: rest =>
    if b ≠ 40 then []
    else
      let chars := rest.takeWhile fun c => isDigit c || c = 95 ||
        (97 ≤ (toLower c).toNat && (toLower c).toNat ≤ 122)
      if (rest.drop chars.length).head? = some 41 then b :: chars ++ [41] else []

/-- The number at the start of a text, behind blanks, as `strtod` delimits it: a hexadecimal
one, a decimal one, `infinity`, `inf` or `nan`. -/
def numericPrefix (str : StdString) : Option StdString :=
  let str := str.dropWhile isspace
  let unsigned := (takeSign str).2
  let sign := str.take (str.length - unsigned.length)
  let body := (hexadecimal unsigned).or <| (number isDigit 101 unsigned).or <|
    (keyword [105, 110, 102, 105, 110, 105, 116, 121] unsigned).or <|
    (keyword [105, 110, 102] unsigned).or <|
    (keyword [110, 97, 110] unsigned).map fun w => w ++ payload (unsigned.drop 3)
  body.map fun n => sign ++ n

/-- The conversions of the library between a double and the text of a number. -/
structure Conversions where
  /-- `std::to_string(value)`, decimal digits with a point. -/
  to_string : Double → StdString
  /-- The double for a number that `strtod` delimits; `none` where it reports a range error. -/
  nearest : StdString → Option Double
  to_string_no_nul : ∀ value, 0 ∉ to_string value

/-- What `std::stod` throws. -/
inductive StodError where
  | invalid_argument | out_of_range
deriving DecidableEq

/-- `std::stod(str)`. -/
def stod (conv : Conversions) (str : StdString) : Except StodError Double :=
  match numericPrefix (CString.ofBytes str) with
  | none => .error .invalid_argument
  | some n =>
    match conv.nearest n with
    | none => .error .out_of_range
    | some value => .ok value

/-! ## The code -/

namespace DecibelValueType

/-- `toText(paramValue)`: the number, and the unit behind a blank. -/
def toText (conv : Conversions) (paramValue : Double) : StdString :=
  conv.to_string paramValue ++ [32, 100, 66]

/-- `fromText(paramValueText)`. -/
def fromText (conv : Conversions) (paramValueText : StdString) : Except StodError Double :=
  stod conv paramValueText

end DecibelValueType

namespace ParameterText

/-- How `paramsTextToValue` ends: it returns, with this in `*value`, or the process does. -/
inductive TextToValue where
  | returned (ok : Bool) (value : Double)
  | terminated

/-- `paramsTextToValue(paramId, display, value)`, with what is in `*value` before. All
parameters have a `DecibelValueType`, whose texts depend on none of its members. -/
def paramsTextToValue (conv : Conversions) (d : Params) (paramId : UInt32) (display : StdString)
    (value : Double) : TextToValue :=
  match d.getParameterById paramId with
  | none => .returned false value
  | some _ =>
    match DecibelValueType.fromText conv (CString.ofBytes display) with
    | .ok value => .returned true value
    -- the exception leaves a function that is `noexcept`
    | .error _ => .terminated

/-- How `paramsValueToText` ends: it returns, having written this, or the process does. -/
inductive ValueToText where
  | returned (ok : Bool) (written : CString.Writes)
  | terminated

/-- `paramsValueToText(paramId, value, display, size)`. -/
def paramsValueToText (platform : Platform) (conv : Conversions) (d : Params) (paramId : UInt32)
    (value : Double) (size : UInt32) : ValueToText :=
  match d.getParameterById paramId with
  | none => .returned false fun _ => none
  | some _ =>
    match safeStrCopy platform size.toUInt64 (DecibelValueType.toText conv value) with
    | .written w => .returned true w
    | .terminated => .terminated

/-- The text begins with a number in the range of a double. -/
def HasNumber (conv : Conversions) (display : StdString) : Prop :=
  ∃ n, numericPrefix (CString.ofBytes display) = some n ∧ (conv.nearest n).isSome

/-- What is promised of the two calls, with `before` in `*value`. -/
structure TextsInBounds (platform : Platform) (conv : Conversions) (d : Params)
    (paramId : UInt32) (display : StdString) (before value : Double) (size : UInt32) : Prop where
  textReturns : ∃ ok after, paramsTextToValue conv d paramId display before = .returned ok after
  refused : (∃ after, paramsTextToValue conv d paramId display before = .returned false after) ↔
    d.getParameterById paramId = none ∨ ¬HasNumber conv display
  unchanged : ∀ after, paramsTextToValue conv d paramId display before = .returned false after →
    after = before
  valueReturns : ∃ ok w, paramsValueToText platform conv d paramId value size = .returned ok w ∧
    w.InBounds size.toNat ∧
    (ok = true → 0 < size.toNat →
      w.Stores ((DecibelValueType.toText conv value).take (size.toNat - 1)))

/-! ## One call each -/

section Calls

variable {platform : Platform} {conv : Conversions} {d : Params} {paramId : UInt32}
  {display : StdString} {before value : Double} {size : UInt32}

theorem ofBytes_toText (conv : Conversions) (value : Double) :
    CString.ofBytes (DecibelValueType.toText conv value) = DecibelValueType.toText conv value := by
  rw [CString.ofBytes_eq_self, DecibelValueType.toText, List.mem_append, not_or]
  exact ⟨conv.to_string_no_nul value, by decide⟩

theorem stod_of_hasNumber (h : HasNumber conv display) :
    ∃ v, stod conv (CString.ofBytes display) = .ok v := by
  obtain ⟨n, hprefix, hrange⟩ := h
  obtain ⟨v, hv⟩ := Option.isSome_iff_exists.mp hrange
  refine ⟨v, ?_⟩
  have hself := CString.ofBytes_eq_self.mpr (CString.zero_not_mem_ofBytes display)
  simp only [stod, hself, hprefix, hv]

theorem stod_of_not_hasNumber (h : ¬HasNumber conv display) :
    ∃ e, stod conv (CString.ofBytes display) = .error e := by
  have hself := CString.ofBytes_eq_self.mpr (CString.zero_not_mem_ofBytes display)
  unfold stod
  rw [hself]
  split
  · exact ⟨_, rfl⟩
  · rename_i n hprefix
    split
    · exact ⟨_, rfl⟩
    · rename_i v hv
      exact absurd ⟨n, hprefix, by rw [hv]; rfl⟩ h

theorem textToValue_unknown (h : d.getParameterById paramId = none) :
    paramsTextToValue conv d paramId display before = .returned false before := by
  simp only [paramsTextToValue, h]

/-- A number in range is what the value becomes. -/
theorem textToValue_number {ptr : ParameterPtr} (h : d.getParameterById paramId = some ptr)
    (hnumber : HasNumber conv display) :
    ∃ v, paramsTextToValue conv d paramId display before = .returned true v := by
  obtain ⟨v, hv⟩ := stod_of_hasNumber hnumber
  exact ⟨v, by simp only [paramsTextToValue, h, DecibelValueType.fromText, hv]⟩

/-- Any other text ends the process. -/
theorem textToValue_no_number {ptr : ParameterPtr} (h : d.getParameterById paramId = some ptr)
    (hnumber : ¬HasNumber conv display) :
    paramsTextToValue conv d paramId display before = .terminated := by
  obtain ⟨e, he⟩ := stod_of_not_hasNumber hnumber
  simp only [paramsTextToValue, h, DecibelValueType.fromText, he]

theorem valueToText_fits {ptr : ParameterPtr} (h : d.getParameterById paramId = some ptr)
    (hfits : CopyFits platform size.toUInt64 (DecibelValueType.toText conv value)) :
    ∃ w, paramsValueToText platform conv d paramId value size = .returned true w ∧
      w.InBounds size.toNat ∧
      w.Stores ((DecibelValueType.toText conv value).take (size.toNat - 1)) := by
  obtain ⟨w, hcopy, hstores, hin⟩ := safeStrCopy_of_fits hfits
  rw [ofBytes_toText, UInt32.toNat_toUInt64] at hstores
  rw [UInt32.toNat_toUInt64] at hin
  refine ⟨w, ?_, hin, hstores⟩
  simp only [paramsValueToText, h, hcopy]

theorem valueToText_not_fits {ptr : ParameterPtr} (h : d.getParameterById paramId = some ptr)
    (hfits : ¬CopyFits platform size.toUInt64 (DecibelValueType.toText conv value)) :
    paramsValueToText platform conv d paramId value size = .terminated ∨
      ∃ w, paramsValueToText platform conv d paramId value size = .returned true w ∧
        ¬w.InBounds size.toNat := by
  rcases safeStrCopy_of_not_fits hfits with hcopy | ⟨w, hcopy, hout⟩
  · left
    simp only [paramsValueToText, h, hcopy]
  · right
    rw [UInt32.toNat_toUInt64] at hout
    refine ⟨w, ?_, hout⟩
    simp only [paramsValueToText, h, hcopy]

/-! ## Both calls -/

theorem TextsInBounds.of_unknown (hid : d.getParameterById paramId = none) :
    TextsInBounds platform conv d paramId display before value size := by
  have htext : paramsTextToValue conv d paramId display before = .returned false before :=
    textToValue_unknown hid
  refine ⟨⟨_, _, htext⟩, iff_of_true ⟨_, htext⟩ (Or.inl hid), ?_, false, fun _ => none, ?_, ?_,
    ?_⟩
  · intro after h
    rw [htext] at h
    cases h
    rfl
  · simp only [paramsValueToText, hid]
  · intro i hi
    exact absurd rfl hi
  · intro hfalse
    cases hfalse

theorem TextsInBounds.of_known {ptr : ParameterPtr} (hid : d.getParameterById paramId = some ptr)
    (hnumber : HasNumber conv display)
    (hfits : CopyFits platform size.toUInt64 (DecibelValueType.toText conv value)) :
    TextsInBounds platform conv d paramId display before value size := by
  have htext : ∃ v, paramsTextToValue conv d paramId display before = .returned true v :=
    textToValue_number hid hnumber
  obtain ⟨v, htext⟩ := htext
  obtain ⟨w, hvalue, hin, hstores⟩ := valueToText_fits hid hfits
  have hnot : ∀ after, paramsTextToValue conv d paramId display before ≠ .returned false after := by
    intro after h
    rw [htext] at h
    cases h
  refine ⟨⟨_, _, htext⟩, ?_, fun after h => absurd h (hnot after), true, w, hvalue, hin,
    fun _ _ => hstores⟩
  constructor
  · rintro ⟨after, h⟩
    exact absurd h (hnot after)
  · rintro (hnone | hno)
    · rw [hid] at hnone
      cases hnone
    · exact absurd hnumber hno

theorem TextsInBounds.hasNumber {ptr : ParameterPtr}
    (h : TextsInBounds platform conv d paramId display before value size)
    (hid : d.getParameterById paramId = some ptr) : HasNumber conv display := by
  by_contra hnumber
  obtain ⟨ok, after, htext⟩ := h.textReturns
  rw [textToValue_no_number hid hnumber] at htext
  cases htext

theorem TextsInBounds.copyFits {ptr : ParameterPtr}
    (h : TextsInBounds platform conv d paramId display before value size)
    (hid : d.getParameterById paramId = some ptr) :
    CopyFits platform size.toUInt64 (DecibelValueType.toText conv value) := by
  by_contra hfits
  obtain ⟨ok, w, hvalue, hin, -⟩ := h.valueReturns
  rcases valueToText_not_fits hid hfits with hend | ⟨w', hret, hout⟩
  · rw [hend] at hvalue
    cases hvalue
  · rw [hret] at hvalue
    cases hvalue
    exact hout hin

end Calls

/-- Both calls keep their promise exactly when the id is unknown, or the text has a number in
range and the size is enough for the copy. -/
theorem texts_in_bounds_iff (platform : Platform) (conv : Conversions) (d : ParamStore)
    (paramId : UInt32) (display : StdString) (before value : Double) (size : UInt32) :
    TextsInBounds platform conv d.toParams paramId display before value size ↔
      d.getParameterById paramId = none ∨ HasNumber conv display ∧
        CopyFits platform size.toUInt64 (DecibelValueType.toText conv value) := by
  cases hid : d.getParameterById paramId with
  | none => exact iff_of_true (.of_unknown hid) (Or.inl rfl)
  | some ptr =>
    constructor
    · intro h
      exact Or.inr ⟨h.hasNumber hid, h.copyFits hid⟩
    · rintro (hnone | ⟨hnumber, hfits⟩)
      · cases hnone
      · exact .of_known hid hnumber hfits

/-- With a number written as zero whatever it is. -/
def zeros : Conversions where
  to_string _ := [48, 46, 48]
  nearest _ := some default
  to_string_no_nul := by simp

/-- The text is "loud". -/
theorem texts_in_bounds_fails : ¬∀ (platform : Platform) (conv : Conversions) (d : ParamStore)
    (paramId : UInt32) (display : StdString) (before value : Double) (size : UInt32),
      TextsInBounds platform conv d.toParams paramId display before value size := by
  intro h
  have hin := h .posix zeros (HostEvents.oneParam 7) 7 [108, 111, 117, 100] default default 16
  obtain ⟨ok, after, hret⟩ := hin.textReturns
  have hid : (HostEvents.oneParam 7).getParameterById 7 = some 1 := rfl
  have hnumber : ¬HasNumber zeros [108, 111, 117, 100] := by
    rintro ⟨n, hprefix, -⟩
    have hnone : numericPrefix (CString.ofBytes [108, 111, 117, 100]) = none := by decide
    rw [hnone] at hprefix
    cases hprefix
  rw [textToValue_no_number hid hnumber] at hret
  cases hret

end ParameterText

end ClapRci
