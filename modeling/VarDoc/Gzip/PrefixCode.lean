import VarDoc.Gzip.Bits

/-! Prefix codes given by the length of each symbol's code word. Shorter words
come first, and words of one length follow the order of their symbols. -/

set_option autoImplicit false

namespace VarDoc.Gzip

inductive CodeTree where
  | unused
  | leaf (symbol : Nat)
  | node (zero one : CodeTree)

namespace CodeTree

def isFull : CodeTree → Bool
  | .unused => false
  | .leaf _ => true
  | .node zero one => zero.isFull && one.isFull

def decode? : CodeTree → List Bool → Option (Nat × List Bool)
  | .leaf symbol, bits => some (symbol, bits)
  | .node zero one, bit :: rest => if bit then one.decode? rest else zero.decode? rest
  | .node _ _, [] => none
  | .unused, _ => none

theorem length_le_of_decode? {tree : CodeTree} {bits rest : List Bool} {symbol : Nat}
    (decoded : tree.decode? bits = some (symbol, rest)) : rest.length ≤ bits.length := by
  induction tree generalizing bits with
  | unused => simp [decode?] at decoded
  | leaf _ =>
    simp only [decode?, Option.some.injEq, Prod.mk.injEq] at decoded
    exact Nat.le_of_eq (congrArg List.length decoded.2.symm)
  | node zero one zeroShrinks oneShrinks =>
    cases bits with
    | nil => simp [decode?] at decoded
    | cons bit tail =>
      simp only [decode?] at decoded
      split at decoded
      · exact Nat.le_succ_of_le (oneShrinks decoded)
      · exact Nat.le_succ_of_le (zeroShrinks decoded)

def pairUp : List CodeTree → List CodeTree
  | [] => []
  | [last] => [.node last .unused]
  | zero :: one :: rest => .node zero one :: pairUp rest

def leavesAt (lengths : List Nat) (depth : Nat) : List CodeTree :=
  lengths.zipIdx.filterMap fun (length, symbol) => if length = depth then some (.leaf symbol) else none

def treesFrom (lengths : List Nat) : Nat → Nat → List CodeTree
  | 0, _ => []
  | levels + 1, depth => leavesAt lengths depth ++ pairUp (treesFrom lengths levels (depth + 1))

end CodeTree

structure PrefixCode where
  zero : CodeTree
  one : CodeTree

namespace PrefixCode

def longest : Nat := 15

/-- The code with these word lengths, where zero means that a symbol has no
word. Unless it has at most one symbol, it must use every sequence of bits. -/
def ofLengths? (lengths : List Nat) : Option PrefixCode :=
  let sparse := decide ((lengths.filter (· != 0)).length ≤ 1)
  match CodeTree.treesFrom lengths longest 1 with
  | [zero, one] => if zero.isFull && one.isFull then some ⟨zero, one⟩ else none
  | [zero] => if sparse then some ⟨zero, .unused⟩ else none
  | [] => some ⟨.unused, .unused⟩
  | _ => none

def decode? (code : PrefixCode) : List Bool → Option (Nat × List Bool)
  | [] => none
  | bit :: rest => if bit then code.one.decode? rest else code.zero.decode? rest

theorem length_lt_of_decode? {code : PrefixCode} {bits rest : List Bool} {symbol : Nat}
    (decoded : code.decode? bits = some (symbol, rest)) : rest.length < bits.length := by
  cases bits with
  | nil => simp [decode?] at decoded
  | cons bit tail =>
    simp only [decode?] at decoded
    split at decoded
    · exact Nat.lt_succ_of_le (CodeTree.length_le_of_decode? decoded)
    · exact Nat.lt_succ_of_le (CodeTree.length_le_of_decode? decoded)

def symbol (code : PrefixCode) : BitReader Nat where
  run := code.decode?
  shrinks decoded := Nat.le_of_lt (length_lt_of_decode? decoded)

end PrefixCode

end VarDoc.Gzip
