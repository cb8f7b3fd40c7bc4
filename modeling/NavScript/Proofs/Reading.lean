import NavScript.Proofs.Effects
import NavScript.Proofs.Navigators

/-!
# The direct reading of a navigation

A navigation read link by link (`follow`), without a stack. What it has come to is one value or the
elements of a value (`Focus`): from one value, null makes everything after it null; elements are
worked on in order, a null one has no members and satisfies no condition, and what an element leads to
many of is laid end to end. A reduction collects the elements into one value again.
-/

namespace NavScript

variable {W : World} {locals : List (String × Value)}

/-- The attempt of a node that is evaluated on its own. -/
def World.evaluate (W : World) (locals : List (String × Value)) (n : Node) :
    Attempt Access Value :=
  match exec W n { locals } with
  | .ok ⟨[v], _, log⟩ => .done v log
  | _ => .failed

/-- Nothing is done with null. -/
def unlessNull (k : Value → Attempt Access Value) (v : Value) : Attempt Access Value :=
  if v.isNull then pure .null else k v

/-- A step from a receiver: stays there, reads a property or calls a method. -/
def World.step (W : World) (locals : List (String × Value)) (expr : Node) (v : Value) :
    Attempt Access Value :=
  match expr.kind with
  | .propertyRead _ name => W.reads v name
  | .methodCall _ _ name args =>
    args.mapM (W.evaluate locals) >>= fun args => W.calls v name args
  | _ => pure v

/-- What a navigation has come to. -/
inductive Focus where
  | one (v : Value)
  | many (items : List Value)

namespace Focus

def value : Focus → Value
  | one v => v
  | many items => .seq items

/-- A value that is taken by element, unless it is null, or as it is. -/
def of (byElement : Bool) (v : Value) : Focus :=
  if byElement && !v.isNull then many v.elements else one v

/-- A condition on one value keeps it or makes it null. -/
def keep (v verdict : Value) : Attempt Access Value :=
  match verdict.bool? with
  | some true => pure v
  | some false => pure .null
  | none => .failed

/-- What a link leads to; `more` says whether links follow, and `blind` that a condition is asked of
null elements too. -/
def advance (W : World) (locals : List (String × Value)) (link : Link) (more blind : Bool) :
    Focus → Attempt Access Focus
  | one v =>
    if v.isNull then pure (one .null)
    else
      match link with
      | .step expr ty => of (ty.isMultiValued && more) <$> W.step locals expr v
      | .predicate x cond _ => one <$> (W.evaluate ((x, v) :: locals) cond >>= keep v)
      | .reduce r _ => pure (one (.collected r v.elements))
  | many items =>
    match link with
    | .step expr ty =>
      (fun found => many (if ty.isMultiValued then found.flatMap Value.elements else found)) <$>
        items.mapM (unlessNull (W.step locals expr))
    | .predicate x cond _ =>
      (fun kept => many kept.flatten) <$> items.mapM fun v =>
        if v.isNull && !blind then pure []
        else
          (fun verdict => if verdict.bool? = some true then [v] else []) <$>
            W.evaluate ((x, v) :: locals) cond
    | .reduce r _ => pure (one (.collected r items))

section

variable {v : Value} {more blind : Bool}

theorem advance_null (h : v.isNull = true) (link : Link) :
    advance W locals link more blind (one v) = pure (one .null) :=
  if_pos h

theorem advance_step (h : v.isNull = false) (expr : Node) (ty : Ty) :
    advance W locals (.step expr ty) more blind (one v) =
      of (ty.isMultiValued && more) <$> W.step locals expr v :=
  if_neg (by rw [h]; decide)

theorem advance_predicate (h : v.isNull = false) (x : String) (cond : Node) (ty : Ty) :
    advance W locals (.predicate x cond ty) more blind (one v) =
      one <$> (W.evaluate ((x, v) :: locals) cond >>= keep v) :=
  if_neg (by rw [h]; decide)

theorem advance_reduce (h : v.isNull = false) (r : Reduction) (ty : Ty) :
    advance W locals (.reduce r ty) more blind (one v) = pure (one (.collected r v.elements)) :=
  if_neg (by rw [h]; decide)

end

end Focus

/-- The value that links lead to. -/
def follow (W : World) (locals : List (String × Value)) : Focus → List Link → Attempt Access Value
  | focus, [] => pure focus.value
  | focus, link :: rest =>
    focus.advance W locals link (!rest.isEmpty) false >>= fun next => follow W locals next rest

/-- The value of a navigation: its head is evaluated, and the other links go on from there. -/
def reading (W : World) (locals : List (String × Value)) : List Link → Attempt Access Value
  | .step expr ty :: rest =>
    W.evaluate locals expr >>= fun v =>
      follow W locals (.of (ty.isMultiValued && !rest.isEmpty) v) rest
  | _ => .failed

theorem unlessNull_null (k : Value → Attempt Access Value) : unlessNull k .null = pure .null := rfl

theorem unlessNull_of {k : Value → Attempt Access Value} {v : Value} (h : v.isNull = false) :
    unlessNull k v = k v := by
  unfold unlessNull
  rw [h]
  rfl

/-- What makes null of null need not be guarded. -/
theorem unlessNull_eq {k : Value → Attempt Access Value} (h : k .null = pure .null) :
    unlessNull k = k := by
  funext v
  cases hv : v.isNull with
  | true => rw [Value.eq_null hv, unlessNull_null, h]
  | false => exact unlessNull_of hv

/-- What goes on behind values is null, or goes on behind one that is not null. -/
theorem mem_bind_unlessNull {o : Attempt Access Value} {k : Value → Attempt Access Value} {u : Value}
    (h : u ∈ o >>= unlessNull k) : u = .null ∨ ∃ v ∈ o, v.isNull = false ∧ u ∈ k v := by
  obtain ⟨v, hv, hu⟩ := Attempt.mem_bind.1 h
  cases hnull : v.isNull with
  | true =>
    rw [Value.eq_null hnull, unlessNull_null, Attempt.mem_pure] at hu
    exact .inl hu
  | false =>
    rw [unlessNull_of hnull] at hu
    exact .inr ⟨v, hv, hnull, hu⟩

/-- A value of a type, where `isA` tells which values other than null are of a class or a
primitive. Null is of every type but the primitives, and the elements of a multi-valued value are of
the element type. -/
inductive Typed (isA : Ty → Value → Prop) : Ty → Value → Prop
  | null {t : Ty} (reference : t.isPrimitive = false) : Typed isA t .null
  | single {t : Ty} {v : Value} (nonNull : v.isNull = false) (notMulti : t.element? = none)
    (h : isA t v) : Typed isA t v
  | multi {t elem : Ty} {v : Value} {items : List Value} (element : t.element? = some elem)
    (held : v.items? = some items) (all : ∀ i ∈ items, Typed isA elem i) : Typed isA t v

/-- Every member that the classes promise is there, with a value of its type. -/
structure World.WellTyped (W : World) (isA : Ty → Value → Prop) (classes : ClassTable) : Prop where
  this_nonNull : W.this.isNull = false
  boxes {k : Prim} {v : Value} (h : isA (.prim k) v) : isA (Ty.prim k).boxed v
  types (t : Ty) : isA (.classOf t) (.type t.render)
  reads {t : Ty} {name : String} {found : Member} {v : Value}
    (declared : classes.property? t name = some found) (typed : Typed isA t v)
    (nonNull : v.isNull = false) : ∃ u, W.read v name = some u ∧ Typed isA found.ty u
  calls {t : Ty} {name : String} {args : List Value} {found : Member} {v : Value}
    (declared : classes.method? t name args.length = some found) (typed : Typed isA t v)
    (nonNull : v.isNull = false) : ∃ u, W.call v name args = some u ∧ Typed isA found.ty u

end NavScript
