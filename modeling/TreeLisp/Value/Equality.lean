import TreeLisp.Number

/-!
# Equality of values

Two notions. Two values are the same when they have the same shape and the same contents; a
callable is the same as itself only. Two values are equal when they are numbers of one exact value,
lists of pairwise equal items, or otherwise the same. NaN is neither the same as nor equal to any
value.
-/
namespace TreeLisp.Value

mutual

def same : Value → Value → Bool
  | .nil, .nil => true
  | .bool a, .bool b => a == b
  | .int a, .int b => a == b
  | .float a, .float b => (Number.float a).equal (.float b)
  | .string a, .string b => a == b
  | .atom a, .atom b => a == b
  | .list a, .list b => sameItems a b
  | .native a, .native b => a == b
  | .sugar a, .sugar b => a == b
  | .function a _ _, .function b _ _ => a == b
  | .expander a _ _, .expander b _ _ => a == b
  | .error a, .error b => a == b
  | _, _ => false

def sameItems : List Value → List Value → Bool
  | [], [] => true
  | a :: as, b :: bs => same a b && sameItems as bs
  | _, _ => false

end

mutual

def equal : Value → Value → Bool
  | .list as, .list bs => equalItems as bs
  | a, b =>
    match a.number?, b.number? with
    | some x, some y => x.equal y
    | _, _ => same a b

def equalItems : List Value → List Value → Bool
  | [], [] => true
  | a :: as, b :: bs => equal a b && equalItems as bs
  | _, _ => false

end

end TreeLisp.Value
