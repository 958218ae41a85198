import Mathlib

/-!
# Bytes, decimals and UTF-8 strings

The data every part of the server shares: byte strings, the decimal rendering that
`to_string` gives an unsigned integer, the `atoi` crate's decimal reader that
`connection/frame.rs` calls through `get_decimal`, and Rust's `String`.

A Rust `String` is its UTF-8 bytes, valid by construction, so `RString` is a byte list with
the validity proof as a field: `String::from_utf8` is `RString.fromUtf8`, `as_bytes` is the
projection, and `from_utf8 (as_bytes s) = Ok s` is `RString.fromUtf8_bytes`.  Validity is
Table 3-7 of the Unicode standard, the table `core::str::from_utf8` checks against.

## Conventions

* A byte is a `UInt8` and a byte string a `List UInt8`; ASCII constants appear as numerals
  with the character in a comment (`43` is `b'+'`).
* Integers the code holds in `u64` are `UInt64`; lengths and positions, `usize` in the
  source, are `Nat`, and the few places where `usize` arithmetic can overflow say so.
-/

namespace RaphDb

/-- A byte string: `&[u8]`, `Vec<u8>`, `Bytes`, `BytesMut`. -/
abbrev Bytes := List UInt8

/-! ## Decimal digits -/

/-- An ASCII digit, `b'0'..=b'9'`. -/
def isDigit (b : UInt8) : Bool := 48 ≤ b && b ≤ 57

/-- The value of a run of ASCII digits, most significant first. -/
def digitsValue (ds : Bytes) : Nat := ds.foldl (fun n d => 10 * n + (d.toNat - 48)) 0

/-- `to_string` of an unsigned integer, with `fuel` bounding the number of digits. -/
def decimalAux : Nat → Nat → Bytes
  | 0, _ => []
  | fuel + 1, n =>
    (if n < 10 then [] else decimalAux fuel (n / 10)) ++ [UInt8.ofNat (48 + n % 10)]

/-- `n.to_string().as_bytes()` for an unsigned integer `n`: its decimal digits, no sign and
no leading zero. -/
def decimal (n : Nat) : Bytes := decimalAux (n + 1) n

example : decimal 1234 = [49, 50, 51, 52] := by decide

lemma digit_facts : ∀ d, d < 10 →
    isDigit (UInt8.ofNat (48 + d)) = true ∧ (UInt8.ofNat (48 + d)).toNat = 48 + d := by
  decide

@[simp] lemma digitsValue_nil : digitsValue [] = 0 := rfl

lemma digitsValue_append_singleton (ds : Bytes) (d : UInt8) :
    digitsValue (ds ++ [d]) = 10 * digitsValue ds + (d.toNat - 48) := by
  simp [digitsValue, List.foldl_append]

lemma decimalAux_spec : ∀ fuel n, n < fuel →
    digitsValue (decimalAux fuel n) = n ∧ ∀ b ∈ decimalAux fuel n, isDigit b = true := by
  intro fuel
  induction fuel with
  | zero => intro n h; omega
  | succ fuel ih =>
    intro n hn
    have hd := digit_facts (n % 10) (Nat.mod_lt _ (by omega))
    by_cases h : n < 10
    · simp [decimalAux, h, digitsValue, hd.1]
      rw [hd.2]; omega
    · obtain ⟨h1, h2⟩ := ih (n / 10) (by omega)
      simp only [decimalAux, h, if_false, digitsValue_append_singleton, h1, hd.2,
        List.mem_append, List.mem_singleton]
      refine ⟨by omega, ?_⟩
      rintro b (hb | rfl)
      · exact h2 b hb
      · exact hd.1

@[simp] lemma digitsValue_decimal (n : Nat) : digitsValue (decimal n) = n :=
  (decimalAux_spec _ n (Nat.lt_succ_self n)).1

lemma isDigit_of_mem_decimal {n : Nat} {b : UInt8} (h : b ∈ decimal n) : isDigit b = true :=
  (decimalAux_spec _ n (Nat.lt_succ_self n)).2 b h

lemma decimal_ne_nil (n : Nat) : decimal n ≠ [] := by
  cases n <;> simp [decimal, decimalAux]

/-! ## `atoi`

`get_decimal` reads its line with `atoi::<u64>` from the `atoi` crate.  No lock file under
the sources pins its version; the model is `atoi` 0.3 (0.3.3), which reads the longest run of
leading ASCII digits, ignores what follows the run, and fails when the run is empty or its
value overflows `u64`.  No sign is accepted; from 0.4 on the crate reads a leading sign as
well. -/

/-- `atoi::<u64>` of the `atoi` crate, version 0.3. -/
def atoi (line : Bytes) : Option UInt64 :=
  match line.takeWhile isDigit with
  | [] => none
  | ds => if digitsValue ds < 2 ^ 64 then some (UInt64.ofNat (digitsValue ds)) else none

/-- `atoi` reads a non-empty digit run followed by bytes that do not start with a digit. -/
lemma atoi_digits_append {ds junk : Bytes} (hds : ∀ b ∈ ds, isDigit b = true)
    (hne : ds ≠ []) (hjunk : ∀ b ∈ junk.head?, isDigit b = false)
    (hlt : digitsValue ds < 2 ^ 64) :
    atoi (ds ++ junk) = some (UInt64.ofNat (digitsValue ds)) := by
  have htake : (ds ++ junk).takeWhile isDigit = ds := by
    rw [List.takeWhile_append_of_pos hds]
    cases junk with
    | nil => simp
    | cons b bs => simp [List.takeWhile_cons, hjunk b rfl]
  rw [atoi, htake]
  cases ds with
  | nil => exact absurd rfl hne
  | cons d ds => exact if_pos hlt

/-- A decimal field: a non-empty run of ASCII digits whose value fits in `u64`. -/
structure Digits (ds : Bytes) : Prop where
  all_digit : ∀ b ∈ ds, isDigit b = true
  ne_nil : ds ≠ []
  lt : digitsValue ds < 2 ^ 64

lemma Digits.decimal {n : Nat} (h : n < 2 ^ 64) : Digits (decimal n) :=
  ⟨fun _ => isDigit_of_mem_decimal, decimal_ne_nil n, by simpa using h⟩

lemma Digits.atoi {ds : Bytes} (h : Digits ds) :
    atoi ds = some (UInt64.ofNat (digitsValue ds)) := by
  simpa using @atoi_digits_append ds [] h.all_digit h.ne_nil (by simp) h.lt

lemma Digits.toNat_ofNat {ds : Bytes} (h : Digits ds) :
    (UInt64.ofNat (digitsValue ds)).toNat = digitsValue ds :=
  UInt64.toNat_ofNat_of_lt h.lt

@[simp] lemma u64_ofNat_toNat (n : UInt64) : UInt64.ofNat n.toNat = n :=
  UInt64.eq_of_val_eq (Fin.ext (UInt64.toNat_ofNat_of_lt n.toNat_lt_size))

/-! ## UTF-8 and `String` -/

/-- Table 3-7 of the Unicode standard, by lead byte: how many continuation bytes follow and
the range the first of them must lie in (every later one lies in `80..BF`).  `none` for a
byte that cannot start a sequence. -/
def utf8Lead (a : UInt8) : Option (Nat × UInt8 × UInt8) :=
  if a ≤ 0x7F then some (0, 0x80, 0xBF)
  else if 0xC2 ≤ a ∧ a ≤ 0xDF then some (1, 0x80, 0xBF)
  else if a = 0xE0 then some (2, 0xA0, 0xBF)
  else if 0xE1 ≤ a ∧ a ≤ 0xEC then some (2, 0x80, 0xBF)
  else if a = 0xED then some (2, 0x80, 0x9F)
  else if 0xEE ≤ a ∧ a ≤ 0xEF then some (2, 0x80, 0xBF)
  else if a = 0xF0 then some (3, 0x90, 0xBF)
  else if 0xF1 ≤ a ∧ a ≤ 0xF3 then some (3, 0x80, 0xBF)
  else if a = 0xF4 then some (3, 0x80, 0x8F)
  else none

/-- The scan behind `from_utf8`: `need` continuation bytes are still owed, the next one in
`lo..=hi`. -/
def utf8Scan : Nat → UInt8 → UInt8 → Bytes → Bool
  | 0, _, _, [] => true
  | _ + 1, _, _, [] => false
  | 0, _, _, a :: rest =>
    match utf8Lead a with
    | some (n, lo, hi) => utf8Scan n lo hi rest
    | none => false
  | n + 1, lo, hi, b :: rest => decide (lo ≤ b ∧ b ≤ hi) && utf8Scan n 0x80 0xBF rest

/-- Well-formed UTF-8, as `core::str::from_utf8` accepts it. -/
def utf8Valid (bs : Bytes) : Bool := utf8Scan 0 0x80 0xBF bs

example : utf8Valid [0xE2, 0x82, 0xAC] = true := by decide
example : utf8Valid [0xED, 0xA0, 0x80] = false := by decide

lemma utf8Scan_zero (lo hi : UInt8) (bs : Bytes) : utf8Scan 0 lo hi bs = utf8Valid bs := by
  cases bs <;> rfl

/-- A well-formed prefix ends on a character boundary: what follows it is checked afresh. -/
lemma utf8Scan_append (b : Bytes) : ∀ {n : Nat} {lo hi : UInt8} {a : Bytes},
    utf8Scan n lo hi a = true → utf8Scan n lo hi (a ++ b) = utf8Valid b
  | 0, lo, hi, [], _ => utf8Scan_zero lo hi b
  | _ + 1, _, _, [], h => by simp [utf8Scan] at h
  | 0, _, _, c :: rest, h => by
    rw [List.cons_append]
    simp only [utf8Scan] at h ⊢
    cases hc : utf8Lead c with
    | none => simp [hc] at h
    | some l => simp only [hc] at h ⊢; exact utf8Scan_append b h
  | _ + 1, _, _, c :: rest, h => by
    rw [List.cons_append]
    simp only [utf8Scan, Bool.and_eq_true] at h ⊢
    rw [utf8Scan_append b h.2, h.1, Bool.true_and]

lemma utf8Valid_append {a : Bytes} (b : Bytes) (h : utf8Valid a = true) :
    utf8Valid (a ++ b) = utf8Valid b :=
  utf8Scan_append b h

lemma utf8Valid_ascii_cons {c : UInt8} (b : Bytes) (hc : c ≤ 0x7F) :
    utf8Valid (c :: b) = utf8Valid b := by
  have hl : utf8Lead c = some (0, 0x80, 0xBF) := if_pos hc
  simp only [utf8Valid, utf8Scan, hl]

/-- A Rust `String`: its bytes, well-formed UTF-8 by construction. -/
structure RString where
  bytes : Bytes
  valid : utf8Valid bytes = true
  deriving DecidableEq

namespace RString

/-- `String::from_utf8`: `none` is the `FromUtf8Error`. -/
def fromUtf8 (bs : Bytes) : Option RString :=
  if h : utf8Valid bs = true then some ⟨bs, h⟩ else none

@[simp] lemma fromUtf8_bytes (s : RString) : fromUtf8 s.bytes = some s := by
  simp [fromUtf8, s.valid]

/-- Two strings are equal exactly when their bytes are. -/
lemma bytes_inj {a b : RString} : a.bytes = b.bytes ↔ a = b :=
  ⟨fun h => by cases a; cases b; cases h; rfl, congrArg _⟩

lemma fromUtf8_eq_some {bs : Bytes} {s : RString} (h : fromUtf8 bs = some s) : s.bytes = bs := by
  unfold fromUtf8 at h
  split at h <;> cases h
  rfl

end RString

end RaphDb
