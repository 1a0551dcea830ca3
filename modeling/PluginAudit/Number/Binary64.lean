/-!
# Double-precision numbers

Numbers are read and compared as 64-bit binary floating-point numbers, but computed here in exact
arithmetic: a `Binary64` is a sign, a mantissa of at most 53 bits and a power of two, and the only
step that loses anything is `ofRatio`, which rounds an exact quotient to the nearest such number, a
tie to the even mantissa. A quotient too large for any becomes infinite.
-/

namespace PluginAudit

/-- The quotient of two naturals rounded to the nearest integer, a tie to the even one. -/
def roundDiv (n d : Nat) : Nat :=
  let q := n / d
  let r := n % d
  if 2 * r < d then q
  else if d < 2 * r then q + 1
  else if q % 2 = 0 then q else q + 1

inductive Binary64 where
  /-- The number `mantissa * 2 ^ exponent`, or its negative; a zero keeps its sign. -/
  | finite (negative : Bool) (mantissa : Nat) (exponent : Int)
  | infinite (negative : Bool)
  | nan
  deriving Repr, DecidableEq, Inhabited

namespace Binary64

def zero : Binary64 := .finite false 0 0

/-- The double nearest to `num / den`, with the given sign. -/
def ofRatio (negative : Bool) (num den : Nat) : Binary64 :=
  if num = 0 then .finite negative 0 0
  else
    -- `num / den` lies strictly between `2 ^ (k - 1)` and `2 ^ (k + 1)`
    let k : Int := (Int.ofNat (Nat.log2 num)) - Int.ofNat (Nat.log2 den)
    let scaled (e : Int) : Nat :=
      if 0 ≤ e then roundDiv num (den <<< e.toNat) else roundDiv (num <<< (-e).toNat) den
    let below (e : Int) : Bool :=
      if 0 ≤ e then num < den <<< (e.toNat + 53) else num <<< (-e).toNat < den <<< 53
    let e₀ := max (k - 53) (-1074)
    let e₁ := if below e₀ then e₀ else e₀ + 1
    let m := scaled e₁
    let (m, e) := if m = 1 <<< 53 then (1 <<< 52, e₁ + 1) else (m, e₁)
    if 971 < e then .infinite negative else .finite negative m e

/-- The double nearest to `digits * 10 ^ exponent`, with the given sign. Exponents beyond all
doubles are decided without computing the power. -/
def ofDecimal (negative : Bool) (digits : Nat) (exponent : Int) : Binary64 :=
  if digits = 0 then .finite negative 0 0
  else if 0 ≤ exponent then
    if 400 < exponent then .infinite negative
    else ofRatio negative (digits * Nat.pow 10 exponent.toNat) 1
  else if Int.ofNat (Nat.log2 digits / 3 + 400) < -exponent then .finite negative 0 0
  else ofRatio negative digits (Nat.pow 10 (-exponent).toNat)

/-- The exact magnitude of a finite double as a quotient. -/
def ratio (m : Nat) (e : Int) : Nat × Nat :=
  if 0 ≤ e then (m <<< e.toNat, 1) else (m, 1 <<< (-e).toNat)

/-- The value of a double that is a natural number. -/
def toNat? : Binary64 → Option Nat
  | .finite negative m e =>
    let (n, d) := ratio m e
    if n % d = 0 && (n = 0 || !negative) then some (n / d) else none
  | _ => none

/-- The natural number that `n` becomes as a double, unless it becomes infinite. -/
def roundNat (n : Nat) : Option Nat := (ofRatio false n 1).toNat?

/-- Whether a double is at least `num / den` rounded to a double. -/
def atLeast (x : Binary64) (num den : Nat) : Bool :=
  match x, ofRatio false num den with
  | .finite sx mx ex, .finite _ my ey =>
    let (a, b) := ratio mx ex
    let (c, d) := ratio my ey
    if sx then a = 0 && c = 0 else c * b ≤ a * d
  | .infinite sx, _ => !sx
  | _, _ => false

/-- Whether two doubles are equal as numbers: both zeros are, and what is no number never is. -/
def same : Binary64 → Binary64 → Bool
  | .finite s m e, .finite t n f => (m = 0 && n = 0) || (s = t && m = n && e = f)
  | .infinite s, .infinite t => s = t
  | _, _ => false

/-- The 64 bits of a double, the sign first; `none` for no number. -/
def bits? : Binary64 → Option Nat
  | .nan => none
  | .infinite s => some ((if s then 1 <<< 63 else 0) + (0x7FF <<< 52))
  | .finite s m e =>
    let sign := if s then 1 <<< 63 else 0
    if m < 1 <<< 52 then some (sign + m)
    else some (sign + ((e + 1075).toNat <<< 52) + (m - (1 <<< 52)))

/-- The value of the 32 bits of a single-precision number. -/
def ofBits32 (w : UInt32) : Binary64 :=
  let negative := 0x80000000 ≤ w
  let exponent := (w.toNat >>> 23) % 256
  let fraction := w.toNat % (1 <<< 23)
  if exponent = 255 then if fraction = 0 then .infinite negative else .nan
  else if exponent = 0 then
    let (n, d) := ratio fraction (-149)
    ofRatio negative n d
  else
    let (n, d) := ratio ((1 <<< 23) + fraction) (Int.ofNat exponent - 150)
    ofRatio negative n d

/-- The number rounded to whole hundredths, a half going up, as a double. -/
def roundHundredths : Binary64 → Binary64
  | .finite s m e =>
    let (n, d) := ratio m e
    if s then
      -- the nearest integer to `-x`, a half going up, is the negative of the nearest to `x`, a half
      -- going down
      ofRatio true ((200 * n + d - 1) / (2 * d)) 100
    else ofRatio false ((200 * n + d) / (2 * d)) 100
  | x => x

end Binary64

end PluginAudit
