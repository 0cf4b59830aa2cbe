/-!
# Base64

Octets are written six bits at a time in one of two alphabets of sixty-four digits. Three octets
make four digits; one or two octets left over make two or three digits and are padded to four.
The digits of a text stand for octets only when their number is not one above a multiple of four,
and then the last digit may carry bits that belong to no octet.

Two readers share the digits. The strict reader takes the standard alphabet only and insists on
padding, and does not look at the unused bits. The lenient reader takes either alphabet and any
part of the padding, and insists that the unused bits are zero.
-/

namespace AccessPolicy.Base64

/-- The two alphabets, which differ in their last two digits. -/
inductive Alphabet where
  /-- The alphabet that ends in `+` and `/`. -/
  | standard
  /-- The alphabet that ends in `-` and `_`. -/
  | urlSafe
  deriving DecidableEq, Repr

/-- The character that fills the last group of four. -/
def pad : Char := '='

/-- The digit for sixty-two. -/
def Alphabet.plus : Alphabet → Char
  | .standard => '+'
  | .urlSafe => '-'

/-- The digit for sixty-three. -/
def Alphabet.slash : Alphabet → Char
  | .standard => '/'
  | .urlSafe => '_'

/-- The digit for a six-bit value. -/
def Alphabet.digit (alphabet : Alphabet) (value : Nat) : Char :=
  if value < 26 then Char.ofNat (value + 65)
  else if value < 52 then Char.ofNat (value - 26 + 97)
  else if value < 62 then Char.ofNat (value - 52 + 48)
  else if value = 62 then alphabet.plus
  else alphabet.slash

/-- The six-bit value of a digit. -/
def Alphabet.value? (alphabet : Alphabet) (c : Char) : Option Nat :=
  if 65 ≤ c.toNat ∧ c.toNat ≤ 90 then some (c.toNat - 65)
  else if 97 ≤ c.toNat ∧ c.toNat ≤ 122 then some (c.toNat - 97 + 26)
  else if 48 ≤ c.toNat ∧ c.toNat ≤ 57 then some (c.toNat - 48 + 52)
  else if c = alphabet.plus then some 62
  else if c = alphabet.slash then some 63
  else none

/-- Every digit reads back as its value. -/
theorem Alphabet.value?_digit (alphabet : Alphabet) :
    ∀ value, value < 64 → alphabet.value? (alphabet.digit value) = some value := by
  cases alphabet <;> decide

/-- The pad is a digit of neither alphabet. -/
theorem Alphabet.value?_pad (alphabet : Alphabet) : alphabet.value? pad = none := by
  cases alphabet <;> decide

/-- The six-bit values of octets, the last one filled up with zero bits. -/
def sextets : List UInt8 → List Nat
  | [] => []
  | [a] => [a.toNat / 4, a.toNat % 4 * 16]
  | [a, b] => [a.toNat / 4, a.toNat % 4 * 16 + b.toNat / 16, b.toNat % 16 * 4]
  | a :: b :: c :: rest =>
    a.toNat / 4 :: (a.toNat % 4 * 16 + b.toNat / 16) :: (b.toNat % 16 * 4 + c.toNat / 64) ::
      c.toNat % 64 :: sextets rest

/-- The octets that six-bit values make up, together with the bits left over at the end. -/
def octets? : List Nat → Option (List UInt8 × Nat)
  | [] => some ([], 0)
  | [_] => none
  | [p, q] => some ([UInt8.ofNat (p * 4 + q / 16)], q % 16)
  | [p, q, r] => some ([UInt8.ofNat (p * 4 + q / 16), UInt8.ofNat (q % 16 * 16 + r / 4)], r % 4)
  | p :: q :: r :: s :: rest =>
    (octets? rest).map fun (octets, unused) =>
      (UInt8.ofNat (p * 4 + q / 16) :: UInt8.ofNat (q % 16 * 16 + r / 4) ::
        UInt8.ofNat (r % 4 * 64 + s) :: octets, unused)

/-- Splitting octets into six-bit values loses nothing and leaves no bit over. -/
theorem octets?_sextets (octets : List UInt8) : octets? (sextets octets) = some (octets, 0) := by
  have hlt : ∀ a : UInt8, a.toNat < 256 := fun a => a.toNat_lt
  have hof : ∀ (a : UInt8) (n : Nat), n = a.toNat → UInt8.ofNat n = a := by
    rintro a _ rfl
    exact UInt8.ofNat_toNat
  fun_induction sextets octets with
  | case1 => rfl
  | case2 a =>
    simp only [octets?, Option.some.injEq, Prod.mk.injEq, List.cons.injEq, and_true]
    exact ⟨hof a _ (by omega), by omega⟩
  | case3 a b =>
    have := hlt b
    simp only [octets?, Option.some.injEq, Prod.mk.injEq, List.cons.injEq, and_true]
    exact ⟨⟨hof a _ (by omega), hof b _ (by omega)⟩, by omega⟩
  | case4 a b c rest ih =>
    have := hlt b
    have := hlt c
    simp only [octets?, ih, Option.map_some, Option.some.injEq, Prod.mk.injEq, List.cons.injEq,
      and_true]
    exact ⟨hof a _ (by omega), hof b _ (by omega), hof c _ (by omega)⟩

/-- The number of pads that bring a number of digits to a multiple of four. -/
def padding (digits : Nat) : Nat := (4 - digits % 4) % 4

/-- The padded text of octets in an alphabet. -/
def encode (alphabet : Alphabet) (octets : List UInt8) : List Char :=
  let digits := (sextets octets).map alphabet.digit
  digits ++ List.replicate (padding digits.length) pad

/-- A text taken apart into what comes before the first pad and the number of pads, if nothing
but pads comes after it. -/
def split? (cs : List Char) : Option (List Char × Nat) :=
  let pads := cs.dropWhile (· ≠ pad)
  if pads.all (· = pad) then some (cs.takeWhile (· ≠ pad), pads.length) else none

/-- The octets and unused bits of a text of digits. -/
def digits? (alphabet : Alphabet) (cs : List Char) : Option (List UInt8 × Nat) :=
  (cs.mapM alphabet.value?).bind octets?

/-- Whether the strict reader accepts a number of pads after a number of digits: exactly the
missing ones after an incomplete group, any number after a complete one. -/
def strictPadding (digits pads : Nat) : Bool :=
  if digits % 4 = 0 then digits ≠ 0 || pads = 0 else pads = padding digits

/-- Reads padded text in the standard alphabet, whatever its unused bits are. -/
def decodeStrict? (cs : List Char) : Option (List UInt8) :=
  (split? cs).bind fun (digits, pads) =>
    if strictPadding digits.length pads then (digits? .standard digits).map (·.1) else none

/-- Reads text in one alphabet with some part of its padding and without unused bits set. -/
def decodeIn? (alphabet : Alphabet) (cs : List Char) : Option (List UInt8) :=
  (split? cs).bind fun (digits, pads) =>
    (digits? alphabet digits).bind fun (octets, unused) =>
      if pads ≤ padding digits.length ∧ unused = 0 then some octets else none

/-- Reads text that is wholly in the standard or wholly in the URL-safe alphabet. -/
def decodeLenient? (cs : List Char) : Option (List UInt8) :=
  (decodeIn? .standard cs).or (decodeIn? .urlSafe cs)

end AccessPolicy.Base64
