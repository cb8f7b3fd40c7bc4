import NavScript.Proofs.Linearization

/-!
# Members of generic classes

A member of a generic class is seen with the arguments of the receiver where the receiver is an
application of that same class, and none of the parameters is left in its type (`mem_bare_subst`).
A receiver further below sees it as declared. Along a chain of declared superclasses and interfaces
a class receives arguments of its own (`Chain`), and what is declared is what these arguments make
of it only if each parameter mentioned is received as itself (`subst_eq_self_iff`).
-/

namespace NavScript

namespace Ty

mutual

/-- The classes a type mentions without arguments. Type parameters are among them. -/
def bare : Ty → List ClassName
  | .named c => [c]
  | .app _ args => bareList args
  | .array elem => bare elem
  | .prim _ | .null => []

def bareList : List Ty → List ClassName
  | [] => []
  | ty :: rest => bare ty ++ bareList rest

end

variable {bindings : List (String × Ty)}

mutual

/-- A type stays as it is exactly if what it mentions is replaced by itself. -/
theorem subst_eq_self_iff : ∀ ty : Ty, ty.subst bindings = ty ↔
    ∀ c ∈ ty.bare, ∀ a, bindings.lookup c.name = some a → a = .named c
  | .named c => by
    rcases h : bindings.lookup c.name with _ | a <;> simp [subst, bare, h]
  | .app c args => by simp [subst, bare, substList_eq_self_iff args]
  | .array elem => by simp [subst, bare, subst_eq_self_iff elem]
  | .prim k => by simp [subst, bare]
  | .null => by simp [subst, bare]

theorem substList_eq_self_iff : ∀ tys : List Ty, substList bindings tys = tys ↔
    ∀ c ∈ bareList tys, ∀ a, bindings.lookup c.name = some a → a = .named c
  | [] => by simp [substList, bareList]
  | ty :: rest => by
    simp only [substList, bareList, List.cons.injEq, subst_eq_self_iff ty,
      substList_eq_self_iff rest, List.mem_append, or_imp, forall_and]

end

mutual

/-- What a type mentions after a replacement comes from something that it mentioned before. -/
theorem mem_bare_subst {c : ClassName} : ∀ ty : Ty, c ∈ (ty.subst bindings).bare ↔
    ∃ x ∈ ty.bare, c ∈ ((bindings.lookup x.name).getD (.named x)).bare
  | .named x => by simp [subst, bare]
  | .app _ args => by simpa [subst, bare] using mem_bare_substList args
  | .array elem => by simpa [subst, bare] using mem_bare_subst elem
  | .prim _ => by simp [subst, bare]
  | .null => by simp [subst, bare]

theorem mem_bare_substList {c : ClassName} : ∀ tys : List Ty, c ∈ bareList (substList bindings tys) ↔
    ∃ x ∈ bareList tys, c ∈ ((bindings.lookup x.name).getD (.named x)).bare
  | [] => by simp [substList, bareList]
  | ty :: rest => by
    simp only [substList, bareList, List.mem_append, mem_bare_subst ty, mem_bare_substList rest,
      or_and_right, exists_or]

end

def args : Ty → List Ty
  | .app _ args => args
  | _ => []

end Ty

namespace ClassDef

variable {d : ClassDef} {ty member : Ty}

/-- A type is the class, with as many arguments as the class has parameters. -/
def Applied (d : ClassDef) (ty : Ty) : Prop :=
  ty.className? = some d.className.name ∧ ty.args.length = d.params.length

/-- What a type gives the parameters of the class. -/
def received (d : ClassDef) (ty : Ty) : List (String × Ty) := d.params.zip ty.args

theorem seenFrom_applied (h : d.Applied ty) : d.seenFrom ty member = member.subst (d.received ty) := by
  obtain ⟨hname, hlen⟩ := h
  rcases ty with k | c | ⟨c, args⟩ | elem | _
  · simp [Ty.className?] at hname
  · exact ((Ty.subst_eq_self_iff member).2 (by simp [received, Ty.args])).symm
  · simp [Ty.className?, Ty.args] at hname hlen
    simp [seenFrom, hname, hlen, received, Ty.args]
  · simp [Ty.className?] at hname
  · simp [Ty.className?] at hname

theorem seenFrom_inherited (h : ¬ d.Applied ty) : d.seenFrom ty member = member := by
  rcases ty with k | c | ⟨c, args⟩ | elem | _
  case app =>
    refine if_neg fun applied => h ?_
    simpa [Applied, Ty.className?, Ty.args] using applied
  all_goals rfl

/-- No parameter of the class is left, except for what the arguments mention. -/
theorem bare_received (h : d.Applied ty) {c : ClassName}
    (hc : c ∈ (member.subst (d.received ty)).bare) (param : c.name ∈ d.params) :
    ∃ a ∈ ty.args, c ∈ a.bare := by
  obtain ⟨x, -, hx⟩ := (Ty.mem_bare_subst member).1 hc
  rcases hl : (d.received ty).lookup x.name with _ | a
  · rw [hl, Option.getD_none, Ty.bare, List.mem_singleton] at hx
    rw [hx, ← List.map_fst_zip (Nat.le_of_eq h.2.symm), List.mem_map] at param
    obtain ⟨p, hp, hname⟩ := param
    have other := List.lookup_eq_none_iff.1 hl p hp
    simp [hname] at other
  · obtain ⟨before, after, split, -⟩ := List.lookup_eq_some_iff.1 hl
    have pair : (x.name, a) ∈ d.params.zip ty.args := by
      show _ ∈ d.received ty
      simp [split]
    rw [hl] at hx
    exact ⟨a, (List.of_mem_zip pair).2, hx⟩

end ClassDef

namespace ClassTable

variable {t : ClassTable} {receiver s : Ty}

/-- A type with its arguments replaced. -/
def instantiate (bindings : List (String × Ty)) : Ty → Ty
  | .app c args => .app c (Ty.substList bindings args)
  | ty => ty

theorem className?_instantiate (bindings : List (String × Ty)) (ty : Ty) :
    (instantiate bindings ty).className? = ty.className? := by
  cases ty <;> rfl

/-- What a receiver reaches through declared superclasses and interfaces, with the arguments
received on the way. Every class on the way has as many arguments as parameters, and nothing is
above `Object`. -/
inductive Chain (t : ClassTable) (receiver : Ty) : Ty → Prop
  | refl : Chain t receiver receiver
  | up {below s : Ty} {d : ClassDef} (chain : Chain t receiver below) (applied : d.Applied below)
    (declared : t.class? d.className.name = some d) (proper : d.className.name ≠ "Object")
    (mem : s ∈ d.superclass.toList ++ d.interfaces) :
    Chain t receiver (instantiate (d.received below) s)

/-- What a chain reaches is above the receiver, up to arguments. -/
theorem Chain.above (h : t.Chain receiver s) :
    ∃ a, t.Above receiver a ∧ a.className? = s.className? := by
  induction h with
  | refl => exact ⟨receiver, .refl, rfl⟩
  | @up below s d _ applied declared proper mem ih =>
    obtain ⟨a, above, hname⟩ := ih
    rw [applied.1] at hname
    have named : a.Named := by simp [Ty.Named, hname]
    have hkey : a.key = d.className.name := by simpa [named.className?] using hname
    refine ⟨s, above.tail ?_, (className?_instantiate _ s).symm⟩
    rw [supers_key named, hkey, supers_declared proper declared]
    rcases List.mem_append.1 mem with hs | hs
    · rw [Option.mem_toList] at hs
      simp [hs]
    · exact List.mem_cons_of_mem _ hs

/-- A member is found as soon as a class that a chain reaches declares it. -/
theorem Chain.member?_isSome (ht : t.SupersNamed) (h : t.Chain receiver s) {d : ClassDef}
    (hname : s.className? = some d.className.name) (declared : t.class? d.className.name = some d)
    {find : ClassDef → Option Ty} (found : (find d).isSome) : (t.member? receiver find).isSome := by
  obtain ⟨a, above, hclass⟩ := h.above
  rw [hname] at hclass
  have named : a.Named := by simp [Ty.Named, hclass]
  obtain ⟨o, ho, hkey⟩ := List.mem_map.1 ((mem_keys_walk ht a.key).2 ⟨a, above, rfl⟩)
  have hclass' : o.className? = some d.className.name := by
    rcases above_of_key ht (above_of_mem_walk ht ho) above hkey with rfl | ⟨named', -⟩
    · exact hclass
    · rw [named'.className?, hkey, ← named.className?, hclass]
  rw [member?_eq, List.findSome?_isSome_iff]
  refine ⟨o, List.mem_reverse.2 ho, ?_⟩
  obtain ⟨member, hmember⟩ := Option.isSome_iff_exists.1 found
  simp [declared?_eq_some.2 ⟨hclass', declared, hmember⟩]

/-- How a receiver sees what a class declares. If it is the class itself, its arguments stand for
the parameters, and none of these is left unless the arguments mention it. Otherwise it sees what is
declared, and that is what a chain makes of it exactly if each parameter that is mentioned is
received as itself. -/
structure Seen (t : ClassTable) (receiver : Ty) (d : ClassDef) (declared seen : Ty) : Prop where
  applied : d.Applied receiver → seen = declared.subst (d.received receiver) ∧
    ∀ c ∈ seen.bare, c.name ∈ d.params → ∃ a ∈ receiver.args, c ∈ a.bare
  inherited : ¬ d.Applied receiver → seen = declared ∧
    ∀ s, t.Chain receiver s → d.Applied s → (seen = declared.subst (d.received s) ↔
      ∀ c ∈ declared.bare, ∀ a, (d.received s).lookup c.name = some a → a = .named c)

theorem seen (t : ClassTable) (receiver : Ty) (d : ClassDef) (declared : Ty) :
    t.Seen receiver d declared (d.seenFrom receiver declared) where
  applied h := by
    rw [ClassDef.seenFrom_applied h]
    exact ⟨rfl, fun c hc param => ClassDef.bare_received h hc param⟩
  inherited h := by
    rw [ClassDef.seenFrom_inherited h]
    exact ⟨rfl, fun s _ _ => eq_comm.trans (Ty.subst_eq_self_iff declared)⟩

/-- What a lookup answers: something, as soon as a class that a chain reaches declares it, and then
a member of a class above the receiver, as the receiver sees it. -/
def Answers (t : ClassTable) (receiver : Ty) (find : ClassDef → Option Ty) (answer : Option Member) :
    Prop :=
  (∀ s d, t.Chain receiver s → s.className? = some d.className.name →
      t.class? d.className.name = some d → (find d).isSome → answer.isSome) ∧
    ∀ m, answer = some m → t.Above receiver m.owner ∧ ∃ d declared,
      m.owner.className? = some d.className.name ∧ t.class? d.className.name = some d ∧
        find d = some declared ∧ t.Seen receiver d declared m.ty

theorem member?_answers (ht : t.SupersNamed) (receiver : Ty) (find : ClassDef → Option Ty) :
    t.Answers receiver find (t.member? receiver find) := by
  refine ⟨fun s d chain hname declared found => chain.member?_isSome ht hname declared found,
    fun m hm => ?_⟩
  rw [member?_eq] at hm
  obtain ⟨owner, hmem, found⟩ := List.exists_of_findSome?_eq_some hm
  obtain ⟨⟨d, declared⟩, hd, rfl⟩ := Option.map_eq_some_iff.1 found
  obtain ⟨hname, hclass, hfind⟩ := declared?_eq_some.1 hd
  exact ⟨above_of_mem_walk ht (List.mem_reverse.1 hmem), d, declared, hname, hclass, hfind,
    t.seen receiver d declared⟩

/-- Over named supertypes a property or a method of a class that a chain of declared superclasses
and interfaces reaches is found, and a receiver that is an application of the class that declares it
sees it with the parameters replaced by its arguments, all at once. From further below it is seen as
declared. -/
theorem members_seen {t : ClassTable} (ht : t.SupersNamed) (receiver : Ty) :
    (∀ name, t.Answers receiver (·.property? name) (t.property? receiver name)) ∧
      ∀ name arity, t.Answers receiver (fun d => (d.method? name arity).map (·.result))
        (t.method? receiver name arity) :=
  ⟨fun _ => member?_answers ht receiver _, fun _ _ => member?_answers ht receiver _⟩

/-- A class with one parameter, which is the type of its item. -/
def boxClass : ClassDef :=
  { className := ⟨"Box", none⟩, params := ["T"], properties := [("item", .ofClass "T")] }

def intBoxClass : ClassDef :=
  { className := ⟨"IntBox", none⟩, superclass := some (.generic "Box" (.ofClass "Integer")) }

def boxClasses : ClassTable := ⟨[boxClass, intBoxClass]⟩

theorem chain_intBox :
    boxClasses.Chain (.ofClass "IntBox") (.generic "Box" (.ofClass "Integer")) :=
  .up (d := intBoxClass) (s := .generic "Box" (.ofClass "Integer")) .refl ⟨rfl, rfl⟩ rfl
    (by decide) (by simp [intBoxClass])

theorem item_seen {receiver : Ty} {m : Member}
    (h : boxClasses.Answers receiver (·.property? "item") (some m))
    (hbox : m.owner.className? = some "Box") :
    boxClasses.Seen receiver boxClass (.ofClass "T") m.ty := by
  obtain ⟨-, d, declared, hname, hclass, hfind, seen⟩ := h.2 m rfl
  have name : d.className.name = "Box" := by simpa [hname] using hbox
  obtain rfl : boxClass = d := by simpa [name, boxClasses, class?, boxClass] using hclass
  obtain rfl : Ty.ofClass "T" = declared := by simpa [boxClass, ClassDef.property?] using hfind
  exact seen

/-- The item of a box of texts is a text, and that of a box of numbers is left as a parameter. -/
theorem members_seen_boxes :
    let box := Ty.generic "Box" Ty.string
    let intBox := Ty.ofClass "IntBox"
    boxClasses.SupersNamed ∧
      (∃ m, boxClasses.property? box "item" = some m ∧ m.ty = .string ∧
        boxClasses.Seen box boxClass (.ofClass "T") m.ty) ∧
      ∃ m, boxClasses.property? intBox "item" = some m ∧ m.ty = .ofClass "T" ∧
        boxClasses.Seen intBox boxClass (.ofClass "T") m.ty := by
  intro box intBox
  have named : boxClasses.SupersNamed := by
    simp [SupersNamed, boxClasses, boxClass, intBoxClass, Ty.Named, Ty.generic, Ty.className?]
  have fromBox := (members_seen named box).1 "item"
  have fromIntBox := (members_seen named intBox).1 "item"
  exact ⟨named, ⟨_, rfl, rfl, item_seen fromBox rfl⟩, _, rfl, rfl, item_seen fromIntBox rfl⟩

/-- A chain gives the box of numbers `Integer` for the parameter, but its item is seen as declared. -/
theorem inherited_parameter_left :
    let intBox := Ty.ofClass "IntBox"
    let box := Ty.generic "Box" (.ofClass "Integer")
    boxClasses.Chain intBox box ∧ boxClass.Applied box ∧
      boxClasses.class? "Box" = some boxClass ∧ boxClass.property? "item" = some (.ofClass "T") ∧
      (boxClasses.property? intBox "item").map (·.owner) = some box ∧
      (boxClasses.property? intBox "item").map (·.ty) = some (.ofClass "T") ∧
      (Ty.ofClass "T").subst (boxClass.received box) = .ofClass "Integer" ∧
      Ty.ofClass "T" ≠ .ofClass "Integer" :=
  ⟨chain_intBox, ⟨rfl, rfl⟩, rfl, rfl, rfl, rfl, rfl, by decide⟩

end ClassTable

end NavScript
