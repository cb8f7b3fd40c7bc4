import NavScript.Proofs.Standalone

/-!
# What surrounds an expression

An expression is evaluated where locals, `this` and the candidates of conditions have values of the types
that the open scopes take them to have (`Scopes.Hold`). There the answer of the scopes at the head of a
navigation gives values of its type only, and it gives one where its arguments have values (`Hold.head`).
A condition on a candidate that is not null is in such surroundings again (`Hold.candidate`).
-/

namespace NavScript

open Machine Lower

variable {isA : Ty → Value → Prop} {classes : ClassTable} {W : World}
  {locals : List (String × Value)} {scopes : Scopes} {cx : Lookup} {step : Step Node}

def Scope.localTy? (x : String) : Scope → Option Ty
  | method locals => locals.lookup x
  | _ => none

/-- The type of a local, in the innermost method that knows it. -/
def Scopes.localTy? (scopes : Scopes) (x : String) : Option Ty := scopes.findSome? (Scope.localTy? x)

/-- A scope that does not answer a name does not know a local of it. -/
theorem Scope.localTy?_of_declined {scope : Scope} {x : String} (named : step.childName? = some x)
    (declined : scope.resolve cx step .head = none) : scope.localTy? x = none := by
  cases scope with
  | method locals =>
    rw [Option.eq_none_iff_forall_ne_some]
    intro ty known
    have answered : resolveLocal locals step = some ((Node.localOf x ty).withSpan step.span) :=
      Option.bind_eq_some_iff.2 ⟨x, named, Option.bind_eq_some_iff.2 ⟨ty, known, rfl⟩⟩
    rw [show resolveLocal locals step = none from declined] at answered
    cases answered
  | imports | typeDecl | bound => rfl

/-- The scope that answers is the innermost one that does. -/
theorem Scopes.resolve_innermost {n : Node} (h : scopes.resolve cx step .head = some n) :
    ∃ scope ∈ scopes, scope.resolve cx step .head = some n ∧
      ∀ x ty, step.childName? = some x → scope.localTy? x = some ty → scopes.localTy? x = some ty := by
  obtain ⟨before, scope, after, rfl, found, declined⟩ := List.findSome?_eq_some_iff.1 h
  refine ⟨scope, by simp, found, fun x ty named known => ?_⟩
  refine List.findSome?_eq_some_iff.2 ⟨before, scope, after, rfl, known, fun other mem => ?_⟩
  exact Scope.localTy?_of_declined named (declined other mem)

/-- Values are as the scopes take them to be. Of a candidate of primitive type nothing is asked, since
no step goes on from it. -/
structure Scopes.Hold (isA : Ty → Value → Prop) (W : World) (locals : List (String × Value))
    (scopes : Scopes) : Prop where
  known {x : String} {ty : Ty} (declared : scopes.localTy? x = some ty) :
    ∃ v, locals.lookup x = some v ∧ Typed isA ty v
  subject {ty : Ty} {n : Node} (mem : .bound ty (.subject n) ∈ scopes)
    (reference : ty.isPrimitive = false) :
    ∃ v, Gives W locals n [] (pure v) ∧ Typed isA ty v ∧ v.isNull = false
  enclosing {ty : Ty} {methods : List Signature} (mem : .typeDecl ty methods ∈ scopes) :
    Typed isA ty W.this
  own {ty : Ty} {methods : List Signature} {sig : Signature} {name : String} {args : List Value}
    (mem : .typeDecl ty methods ∈ scopes)
    (has : methods.find? (fun m => m.name == name && m.params.length == args.length) = some sig) :
    ∃ v, W.call W.this name args = some v ∧ Typed isA sig.result v

/-- The node gives values of the type only, and it gives one where its arguments have values. -/
def Supplies (isA : Ty → Value → Prop) (W : World) (locals : List (String × Value)) (n : Node)
    (ty : Ty) : Prop :=
  ∃ o, Gives W locals n [] o ∧ (∀ v ∈ o, Typed isA ty v) ∧
    ((∀ a ∈ n.arguments, ∃ v, v ∈ W.evaluate locals a) → ∃ v, v ∈ o)

theorem Supplies.value {n : Node} {ty : Ty} {v : Value} (gives : Gives W locals n [] (pure v))
    (typed : Typed isA ty v) : Supplies isA W locals n ty :=
  ⟨pure v, gives, fun _ hu => by rwa [Attempt.mem_pure.1 hu], fun _ => ⟨v, Attempt.mem_pure.2 rfl⟩⟩

/-- A call that returns for all arguments. -/
theorem Supplies.call {receiver : Node} {args : List Node} {v : Value} {name : String} {owner ty : Ty}
    {span : Span} (gives : Gives W locals receiver [] (pure v)) (nonNull : v.isNull = false)
    (closed : ∀ a ∈ args, Closed W locals a)
    (returns : ∀ vs : List Value, vs.length = args.length →
      ∃ u, W.call v name vs = some u ∧ Typed isA ty u) :
    Supplies isA W locals ⟨span, some ty, .methodCall receiver owner name args⟩ ty := by
  have run : Gives W locals ⟨span, some ty, .methodCall receiver owner name args⟩ []
      (pure v >>= fun v => args.mapM (W.evaluate locals) >>= fun vs => W.calls v name vs) :=
    gives_methodCall gives closed
  rw [pure_bind] at run
  refine ⟨_, run, fun u hu => ?_, fun valued => ?_⟩
  · obtain ⟨vs, hvs, hu⟩ := Attempt.mem_bind.1 hu
    obtain ⟨r, hcall, typed⟩ := returns vs (Attempt.length_of_mem_mapM hvs)
    unfold World.calls at hu
    rw [nonNull, hcall] at hu
    rwa [Attempt.mem_done.1 hu]
  · obtain ⟨vs, hvs⟩ := Attempt.exists_mem_mapM valued
    obtain ⟨r, hcall, -⟩ := returns vs (Attempt.length_of_mem_mapM hvs)
    refine ⟨r, Attempt.mem_bind.2 ⟨vs, hvs, ?_⟩⟩
    unfold World.calls
    rw [nonNull, hcall]
    exact Attempt.mem_done.2 rfl

/-- An answer on a receiver that is there. -/
theorem Answer.supplies {r : Request} {n : Node} {v : Value} {t : Ty} (answer : Answer r n)
    (hW : W.WellTyped isA r.classes) (gives : Gives W locals r.receiver [] (pure v))
    (same : r.receiver.withTy r.receiverTy = r.receiver) (typed : Typed isA r.receiverTy v)
    (nonNull : v.isNull = false) (closed : ∀ a ∈ r.args, Closed W locals a) (hn : n.ty = some t) :
    Supplies isA W locals n t := by
  cases answer with
  | receiver =>
    cases hn
    rw [same]
    exact .value gives typed
  | @property name found has =>
    cases hn
    obtain ⟨u, hread, hu⟩ := hW.reads has typed nonNull
    have run : Gives W locals ⟨r.step.span, some found.ty, .propertyRead r.receiver name⟩ []
        (pure v >>= fun v => W.reads v name) := gives_propertyRead gives name
    have read : W.reads v name = .done u {⟨v, name⟩} := by
      unfold World.reads
      rw [nonNull, hread]
      rfl
    rw [pure_bind, read] at run
    refine ⟨_, run, fun w hw => ?_, fun _ => ⟨u, Attempt.mem_done.2 rfl⟩⟩
    rwa [Attempt.mem_done.1 hw]
  | @method name found has =>
    cases hn
    refine .call gives nonNull closed fun vs hvs => ?_
    rw [← hvs] at has
    exact hW.calls has typed nonNull

/-- What the scopes answer at the head. -/
theorem Scopes.Hold.head (hold : scopes.Hold isA W locals) (hW : W.WellTyped isA cx.classes)
    (hp : cx.navigators.Provided) {next : Nat} (sound : scopes.Sound next)
    (closed : ∀ a ∈ step.test.children, Closed W locals a) {n : Node} {t : Ty}
    (answer : scopes.resolve cx step .head = some n) (typed : n.ty = some t) :
    Supplies isA W locals n t := by
  obtain ⟨scope, mem, found, innermost⟩ := resolve_innermost answer
  cases Scope.resolve_answer hp found with
  | imported c =>
    cases typed
    exact .value (gives_typeRef _) (.single rfl rfl (hW.types _))
  | @declared locals name ty named has =>
    cases typed
    obtain ⟨v, bound, typed⟩ := hold.known (innermost name _ named has)
    exact .value (gives_localRef bound) typed
  | @own ty methods sig name args called has =>
    cases typed
    unfold Request.methodCall Request.args
    rw [called] at closed ⊢
    refine .call gives_this hW.this_nonNull closed fun vs hvs => ?_
    rw [show args.length = vs.length from hvs.symm] at has
    exact hold.own mem has
  | @member ty methods n answer =>
    exact answer.supplies hW gives_this rfl (hold.enclosing mem) hW.this_nonNull closed typed
  | stacked => cases found
  | @subject t subject n answer =>
    obtain ⟨v, gives, typedSubject, nonNull⟩ := hold.subject mem (Scope.resolveFrom_reference hp found)
    have same : subject.withTy t = subject := by
      rcases sound.bound mem with heq | ⟨k, heq⟩ <;> cases heq <;> rfl
    exact answer.supplies hW gives same typedSubject nonNull closed typed

theorem gives_localRef_iff {span : Span} {ty : Option Ty} {x : String} {v : Value} :
    Gives W locals ⟨span, ty, .localRef x⟩ [] (pure v) ↔ locals.lookup x = some v := by
  refine ⟨fun h => ?_, gives_localRef⟩
  cases hl : locals.lookup x with
  | none =>
    obtain ⟨_, -, run⟩ := gives_mk.1 h [] []
    have crash : execKind W ty (.localRef x) ⟨[], locals, []⟩ = .error .unbound :=
      execKind_localRef_none hl
    cases crash.symm.trans run
  | some u =>
    have same : (pure v : Attempt Access Value) = pure u :=
      h.evaluate.symm.trans (gives_localRef hl).evaluate
    rw [(Attempt.done.inj same).1]

namespace Scopes

/-- No candidate has the name of a local. -/
theorem Sound.local_ne {next : Nat} (sound : scopes.Sound next) {x : String} {ty : Ty}
    (known : scopes.localTy? x = some ty) (k : Nat) : x ≠ freshName "p" k := by
  rintro rfl
  obtain ⟨scope, mem, found⟩ := List.exists_of_findSome?_eq_some known
  cases scope with
  | method locals =>
    obtain ⟨before, after, rfl, -⟩ := List.lookup_eq_some_iff.1 found
    have plain := sound.plain mem (freshName "p" k, ty) (by simp)
    rw [isDrawn_freshName] at plain
    cases plain
  | imports | typeDecl | bound => cases found

/-- A condition on a candidate that is not null is in such surroundings again. -/
theorem Hold.candidate (hold : scopes.Hold isA W locals) {k : Nat} (sound : scopes.Sound k) {ty : Ty}
    {v : Value} (typed : ty.isPrimitive = false → Typed isA ty v ∧ v.isNull = false) :
    Hold isA W ((freshName "p" k, v) :: locals) (Scopes.candidate k ty :: scopes) where
  known {x t} declared := by
    have declared : scopes.localTy? x = some t := declared
    obtain ⟨u, bound, typed⟩ := hold.known declared
    refine ⟨u, ?_, typed⟩
    rw [List.lookup_cons, beq_eq_false_iff_ne.2 (sound.local_ne declared k)]
    exact bound
  subject {t n} mem reference := by
    rcases List.mem_cons.1 mem with heq | mem
    · cases heq
      exact ⟨v, gives_localRef List.lookup_cons_self, typed reference⟩
    · obtain ⟨u, gives, typed, nonNull⟩ := hold.subject mem reference
      refine ⟨u, ?_, typed, nonNull⟩
      rcases sound.bound mem with heq | ⟨k', heq⟩
      · cases heq
        have same : (pure u : Attempt Access Value) = pure W.this :=
          gives.evaluate.symm.trans gives_this.evaluate
        rw [(Attempt.done.inj same).1]
        exact gives_this
      · cases heq
        have earlier : k' ≠ k := Nat.ne_of_lt (sound.drawn mem)
        refine gives_localRef ?_
        rw [List.lookup_cons, beq_eq_false_iff_ne.2 fun heq => earlier (freshName_number heq)]
        exact gives_localRef_iff.1 gives
  enclosing mem := hold.enclosing (by simpa [Scopes.candidate] using mem)
  own mem has := hold.own (by simpa [Scopes.candidate] using mem) has

end Scopes

/-- What is around a script: `this` is of the binding type and of the enclosing one, and the methods of the
script can be called. -/
theorem Resolve.initialScopes_hold {env : Environment} {root : Node} (this : W.this.isNull = false)
    (binding : Typed isA env.binding W.this) (enclosing : ∀ ty ∈ env.enclosing, Typed isA ty W.this)
    (own : ∀ {sig name} {args : List Value},
      (ownMethods root).find? (fun m => m.name == name && m.params.length == args.length) = some sig →
        ∃ v, W.call W.this name args = some v ∧ Typed isA sig.result v) :
    (initialScopes env root).Hold isA W [] where
  known {x t} declared := by
    have unknown : (initialScopes env root).localTy? x = none := by
      unfold initialScopes Scopes.localTy?
      cases env.enclosing <;> rfl
    rw [unknown] at declared
    cases declared
  subject {t n} mem _ := by
    have heq : t = env.binding ∧ n = .thisOf env.binding := by
      simpa [initialScopes] using mem
    rw [heq.1, heq.2]
    exact ⟨W.this, gives_this, binding, this⟩
  enclosing {t methods} mem := by
    have heq : env.enclosing = some t ∧ ownMethods root = methods := by
      simpa [initialScopes] using mem
    exact enclosing t heq.1
  own {t methods sig name args} mem has := by
    have heq : env.enclosing = some t ∧ ownMethods root = methods := by
      simpa [initialScopes] using mem
    rw [← heq.2] at has
    exact own has

end NavScript
