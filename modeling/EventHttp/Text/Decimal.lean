/-! Decimal numerals: reading them with an optional sign and within limits, and
writing them. -/

namespace EventHttp.Decimal

def digit? (c : Char) : Option Nat :=
  if '0' ≤ c ∧ c ≤ '9' then some (c.toNat - '0'.toNat) else none

def natural? : List Char → Option Nat
  | [] => none
  | cs => cs.foldl (fun value c => value.bind fun v => (digit? c).map (v * 10 + ·)) (some 0)

def unsigned? (limit : Nat) (s : List Char) : Option Nat :=
  let digits := match s with
    | '+' :: rest => rest
    | _ => s
  (natural? digits).filter (· < limit)

def signed? (low high : Int) (s : List Char) : Option Int :=
  let value := match s with
    | '+' :: rest => (natural? rest).map Int.ofNat
    | '-' :: rest => (natural? rest).map fun n => -Int.ofNat n
    | _ => (natural? s).map Int.ofNat
  value.filter fun v => low ≤ v && v ≤ high

def digit (n : Nat) : Char :=
  Char.ofNat ('0'.toNat + n)

def digits (n : Nat) : List Char :=
  if n < 10 then [digit n] else digits (n / 10) ++ [digit (n % 10)]

def text (n : Nat) : String :=
  String.ofList (digits n)

theorem digit?_digit {n : Nat} (h : n < 10) : digit? (digit n) = some n := by
  match n, h with
  | 0, _ | 1, _ | 2, _ | 3, _ | 4, _ | 5, _ | 6, _ | 7, _ | 8, _ | 9, _ => rfl

theorem natural?_singleton (c : Char) : natural? [c] = digit? c := by
  simp [natural?]

theorem natural?_concat {cs : List Char} (h : cs ≠ []) (c : Char) :
    natural? (cs ++ [c]) = (natural? cs).bind fun v => (digit? c).map (v * 10 + ·) := by
  cases cs with
  | nil => exact absurd rfl h
  | cons d ds => simp [natural?]

theorem digits_ne_nil (n : Nat) : digits n ≠ [] := by
  unfold digits
  split <;> simp

@[simp] theorem natural?_digits (n : Nat) : natural? (digits n) = some n := by
  fun_induction digits n with
  | case1 n h => rw [natural?_singleton, digit?_digit h]
  | case2 n h ih =>
    rw [natural?_concat (digits_ne_nil _), ih, Option.bind_some, digit?_digit (by omega),
      Option.map_some]
    congr 1
    omega

end EventHttp.Decimal
