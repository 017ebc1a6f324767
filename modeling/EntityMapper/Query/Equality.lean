import EntityMapper.Query.Plan

namespace EntityMapper

/-- Association paths of one registry are the same when they follow the same associations from the same alias. -/
def AssociationPath.same (a b : AssociationPath) : Bool :=
  a.owner.same b.owner && a.hops == b.hops && a.target == b.target

def sameRoute : Option AssociationPath → Option AssociationPath → Bool
  | none, none => true
  | some a, some b => a.same b
  | _, _ => false

def sameAliases : List Alias → List Alias → Bool
  | [], [] => true
  | a :: as, b :: bs => a.same b && sameAliases as bs
  | _, _ => false

mutual

/-- Expressions are the same when their trees are, literals being compared as values. -/
def Expr.same : Expr → Expr → Bool
  | .path a, .path b => a == b
  | .literal a, .literal b => a == b
  | .aggregate f a d, .aggregate g b e => f == g && a.same b && d == e
  | .subquery a, .subquery b => a.same b
  | _, _ => false
termination_by structural e => e

def Predicate.same : Predicate → Predicate → Bool
  | .compare a o b, .compare c p d => a.same c && o == p && b.same d
  | .between a l h, .between b m i => a.same b && l.same m && h.same i
  | .inValues a vs n, .inValues b ws m => a.same b && sameExprs vs ws && n == m
  | .inPlan a p n, .inPlan b q m => a.same b && p.same q && n == m
  | .isNull a n, .isNull b m => a.same b && n == m
  | .exists p n, .exists q m => p.same q && n == m
  | .and ps, .and qs => samePredicates ps qs
  | .or ps, .or qs => samePredicates ps qs
  | .not p, .not q => p.same q
  | _, _ => false
termination_by structural p => p

def Projection.same : Projection → Projection → Bool
  | .expr a, .expr b => a.same b
  | .entity a, .entity b => Alias.same a b
  | _, _ => false
termination_by structural p => p

def Join.same : Join → Join → Bool
  | ⟨k, t, a, c, f⟩, ⟨l, u, b, d, g⟩ => k == l && Alias.same t u && sameRoute a b && sameCondition c d && f == g
termination_by structural j => j

def SortItem.same : SortItem → SortItem → Bool
  | ⟨a, d, n⟩, ⟨b, e, m⟩ => a.same b && d == e && n == m
termination_by structural o => o

def Plan.same : Plan → Plan → Bool
  | ⟨ps, ss, js, fs, gs, hs, os, o, l, d⟩, ⟨qs, ts, ks, es, is, rs, us, m, k, c⟩ =>
    sameProjections ps qs && sameAliases ss ts && sameJoins js ks && samePredicates fs es && sameExprs gs is &&
      samePredicates hs rs && sameSortItems os us && o == m && l == k && d == c
termination_by structural p => p

def sameCondition : Option Predicate → Option Predicate → Bool
  | none, none => true
  | some p, some q => p.same q
  | _, _ => false
termination_by structural p => p

def sameExprs : List Expr → List Expr → Bool
  | [], [] => true
  | a :: as, b :: bs => a.same b && sameExprs as bs
  | _, _ => false
termination_by structural es => es

def samePredicates : List Predicate → List Predicate → Bool
  | [], [] => true
  | a :: as, b :: bs => a.same b && samePredicates as bs
  | _, _ => false
termination_by structural ps => ps

def sameProjections : List Projection → List Projection → Bool
  | [], [] => true
  | a :: as, b :: bs => a.same b && sameProjections as bs
  | _, _ => false
termination_by structural ps => ps

def sameJoins : List Join → List Join → Bool
  | [], [] => true
  | a :: as, b :: bs => a.same b && sameJoins as bs
  | _, _ => false
termination_by structural js => js

def sameSortItems : List SortItem → List SortItem → Bool
  | [], [] => true
  | a :: as, b :: bs => a.same b && sameSortItems as bs
  | _, _ => false
termination_by structural os => os

end

instance : BEq Expr := ⟨Expr.same⟩
instance : BEq Predicate := ⟨Predicate.same⟩
instance : BEq Plan := ⟨Plan.same⟩

end EntityMapper
