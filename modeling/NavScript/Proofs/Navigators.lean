import NavScript.Setup.Basic

/-!
# What navigators answer

The navigators that a setup installs, the standard ones and those of manifests, stay on the
receiver, read a property of it or call a method of it (`Answer`), and nothing else. So each answer
of a scope is of one of a few forms (`ScopeAnswer`).
-/

namespace NavScript

/-- A setup that comes from options and manifests. -/
inductive Setup.Installed : Setup → Prop
  | ofConfig (config : Config) : Installed (.ofConfig config)
  | install {s : Setup} {name text : String} {m : Manifest} (before : Installed s)
    (read : Manifest.read name text = .ok m) : Installed (s.install m)

/-- The navigators that setups install for a key. Only what has the key of `Object` above it can be
stayed on. -/
inductive Navigator.Provided : String → Navigator → Prop
  | identity : Provided Ty.object.key .identity
  | namedProperty (key : String) : Provided key .namedProperty
  | namedMethod (key : String) : Provided key .namedMethod
  | fixedProperty (key label property : String) : Provided key (.fixedProperty label property)
  | fixedMethod (key label method : String) : Provided key (.fixedMethod label method)

namespace Registry

def Provided (r : Registry) : Prop := ∀ slot ∈ r.slots, slot.2.Provided slot.1.key

theorem Provided.offer {r : Registry} (h : r.Provided) {declaring : Ty} {axis : Axis}
    {test : SlotTest} {navigator : Navigator} (hn : navigator.Provided declaring.key) :
    (r.offer declaring axis test navigator).1.Provided := by
  unfold Registry.offer
  simp only
  split
  · intro slot hs
    rcases List.mem_append.1 hs with hs | hs
    · exact h slot hs
    · rw [List.mem_singleton.1 hs]
      exact hn
  · split <;> exact h

/-- A fold over registries keeps what each step keeps. -/
theorem Provided.foldl {β : Type} {step : Registry × List Diagnostic → β → Registry × List Diagnostic} :
    ∀ (bs : List β) {r : Registry × List Diagnostic}, r.1.Provided →
      (∀ r, r.1.Provided → ∀ b ∈ bs, (step r b).1.Provided) → (bs.foldl step r).1.Provided
  | [], _, h, _ => h
  | b :: bs, r, h, hstep => by
    have first : (step r b).1.Provided := hstep r h b (List.mem_cons_self ..)
    have others : ∀ r, r.1.Provided → ∀ b ∈ bs, (step r b).1.Provided :=
      fun r hr b hb => hstep r hr b (List.mem_cons_of_mem _ hb)
    exact Provided.foldl bs first others

theorem Provided.register {r : Registry} (h : r.Provided) {g : Registration}
    (hg : g.navigator.Provided g.declaring.key) : (r.register g).1.Provided := by
  unfold Registry.register
  exact Provided.foldl _ h fun r hr b _ => hr.offer hg

theorem Provided.load {r : Registry} (h : r.Provided) {gs : List Registration}
    (hgs : ∀ g ∈ gs, g.navigator.Provided g.declaring.key) : (r.load gs).1.Provided := by
  unfold Registry.load
  exact Provided.foldl _ h fun r hr g hg => hr.register (hgs g hg)

theorem provided_standard (policy : ConflictPolicy) : (standard policy).Provided := by
  refine Provided.load (r := { policy }) nofun fun g hg => ?_
  simp only [Navigator.standard, List.mem_cons, List.not_mem_nil, or_false] at hg
  rcases hg with rfl | rfl | rfl
  · exact .identity
  · exact .namedProperty _
  · exact .namedMethod _

/-- A candidate for a step comes from a slot of a type above the receiver's. -/
theorem mem_lookup {r : Registry} {classes : ClassTable} {ty : Ty} {step : Step Node}
    {navigator : Navigator} (h : navigator ∈ r.lookup classes ty step) :
    ∃ slot ∈ r.slots, slot.2 = navigator ∧ ∃ super ∈ classes.walk ty, slot.1.key = super.key := by
  have held {key : Slot} (hk : navigator ∈ (r.holder? key).toList) :
      ∃ slot ∈ r.slots, slot.2 = navigator ∧ slot.1 = key := by
    rw [Option.mem_toList] at hk
    obtain ⟨before, after, heq, -⟩ := List.lookup_eq_some_iff.1 hk
    exact ⟨(key, navigator), by rw [heq]; simp, rfl, rfl⟩
  simp only [lookup, candidatesAt, List.mem_flatMap, List.mem_append] at h
  obtain ⟨super, hsuper, h | h⟩ := h
  · obtain ⟨slot, hs, hn, hkey⟩ := held h
    exact ⟨slot, hs, hn, super, hsuper, by rw [hkey]⟩
  · rw [Option.mem_toList, Option.bind_eq_some_iff] at h
    obtain ⟨wide, -, h⟩ := h
    obtain ⟨slot, hs, hn, hkey⟩ := held (Option.mem_toList.2 h)
    exact ⟨slot, hs, hn, super, hsuper, by rw [hkey]⟩

end Registry

theorem mem_of_mapM_ok {α β ε : Type} {f : α → Except ε β} :
    ∀ {as : List α} {bs : List β} {b : β}, as.mapM f = .ok bs → b ∈ bs → ∃ a ∈ as, f a = .ok b
  | [], _, _, h, hb => by
    cases h
    cases hb
  | a :: as, bs, b, h, hb => by
    rw [List.mapM_cons] at h
    cases ha : f a with
    | error e =>
      rw [ha] at h
      cases h
    | ok b' =>
      cases has : as.mapM f with
      | error e =>
        rw [ha, has] at h
        cases h
      | ok bs' =>
        rw [ha, has] at h
        cases h
        rcases List.mem_cons.1 hb with rfl | hb
        · exact ⟨a, List.mem_cons_self .., ha⟩
        · obtain ⟨a', ha', h⟩ := mem_of_mapM_ok has hb
          exact ⟨a', List.mem_cons_of_mem _ ha', h⟩

/-- The navigators that manifests declare. -/
inductive Navigator.Alias : Navigator → Prop
  | property (label property : String) : Alias (.fixedProperty label property)
  | method (label method : String) : Alias (.fixedMethod label method)

theorem Navigator.Alias.provided {navigator : Navigator} (h : navigator.Alias) (key : String) :
    navigator.Provided key := by
  cases h with
  | property label property => exact .fixedProperty key label property
  | method label method => exact .fixedMethod key label method

theorem NavigatorEntry.read_alias {manifest : String} {known : String → Bool}
    {e : NavigatorEntry} {g : Registration} (h : e.read manifest known = .ok g) :
    g.navigator.Alias := by
  unfold NavigatorEntry.read at h
  split at h
  · cases h
  · split at h
    · cases h
    · split at h
      · cases h
      · rename_i navigator hn
        cases h
        unfold navigator? at hn
        split at hn <;> cases hn
        · exact .property ..
        · exact .method ..

theorem Manifest.read_alias {name text : String} {m : Manifest}
    (h : Manifest.read name text = .ok m) : ∀ g ∈ m.registrations, g.navigator.Alias := by
  unfold Manifest.read at h
  split at h
  · cases h
  · rename_i classes navigators _
    cases hc : classes.mapM ClassEntry.read with
    | error e =>
      rw [hc] at h
      cases h
    | ok classes =>
      rw [hc] at h
      let known (c : String) := classes.any (·.className.name == c) || ClassTable.builtin.contains c
      cases hn : navigators.mapM (NavigatorEntry.read name known) with
      | error e =>
        have h : (do return ⟨name, classes, ← navigators.mapM (NavigatorEntry.read name known)⟩ :
          Except SetupFailure Manifest) = .ok m := h
        rw [hn] at h
        cases h
      | ok registrations =>
        have h : (do return ⟨name, classes, ← navigators.mapM (NavigatorEntry.read name known)⟩ :
          Except SetupFailure Manifest) = .ok m := h
        rw [hn] at h
        cases h
        intro g hg
        obtain ⟨e, -, he⟩ := mem_of_mapM_ok hn hg
        exact NavigatorEntry.read_alias he

theorem Manifest.read_provided {name text : String} {m : Manifest}
    (h : Manifest.read name text = .ok m) :
    ∀ g ∈ m.registrations, g.navigator.Provided g.declaring.key :=
  fun g hg => (Manifest.read_alias h g hg).provided _

/-- All navigators of a setup are provided ones. -/
theorem Setup.Installed.provided {s : Setup} (h : s.Installed) : s.navigators.Provided := by
  induction h with
  | ofConfig config => exact Registry.provided_standard config.conflictPolicy
  | install _ read ih => exact ih.load (Manifest.read_provided read)

/-- What a navigator that is asked can answer. -/
inductive Answer (r : Request) : Node → Prop
  | receiver : Answer r (r.receiver.withTy r.receiverTy)
  | property {name : String} {found : Member}
    (has : r.classes.property? r.receiverTy name = some found) :
    Answer r (r.propertyRead name found.ty)
  | method {name : String} {found : Member}
    (has : r.classes.method? r.receiverTy name r.args.length = some found) :
    Answer r (r.methodCall found.owner name found.ty)

theorem Answer.readProperty {r : Request} {name : String} {n : Node}
    (h : r.readProperty? name = some n) : Answer r n := by
  obtain ⟨found, hf, rfl⟩ := Option.map_eq_some_iff.1 h
  exact .property hf

theorem Answer.callMethod {r : Request} {name : String} {n : Node}
    (h : r.callMethod? name = some n) : Answer r n := by
  obtain ⟨found, hf, rfl⟩ := Option.map_eq_some_iff.1 h
  exact .method hf

theorem Navigator.Provided.answer {key : String} {navigator : Navigator}
    (hn : navigator.Provided key) {r : Request} {n : Node} (h : navigator.apply r = some n) : Answer r n := by
  cases hn with
  | identity =>
    cases h
    exact .receiver
  | namedProperty =>
    obtain ⟨name, -, h⟩ := Option.bind_eq_some_iff.1 h
    exact .readProperty h
  | namedMethod =>
    obtain ⟨name, -, h⟩ := Option.bind_eq_some_iff.1 h
    exact .callMethod h
  | fixedProperty label property => exact .readProperty h
  | fixedMethod label method => exact .callMethod h

/-- What a scope answers to a step. -/
inductive ScopeAnswer (classes : ClassTable) (step : Step Node) : Scope → Node → Prop
  | imported {names : List (String × ClassName)} (c : ClassName) :
    ScopeAnswer classes step (.imports names)
      { span := step.span, ty := some (.classOf (.named c)), kind := .typeRef (.named c) }
  | declared {locals : List (String × Ty)} {name : String} {ty : Ty}
    (named : step.childName? = some name) (has : locals.lookup name = some ty) :
    ScopeAnswer classes step (.method locals) ((Node.localOf name ty).withSpan step.span)
  /-- The first method of that name and arity that the script declares. -/
  | own {ty : Ty} {methods : List Signature} {sig : Signature} {name : String} {args : List Node}
    (called : step.test = .call name args)
    (has : methods.find? (fun m => m.name == name && m.params.length == args.length) = some sig) :
    ScopeAnswer classes step (.typeDecl ty methods)
      (Request.methodCall ⟨step, (Node.thisOf ty).withSpan step.span, ty, classes⟩ ty name sig.result)
  | member {ty : Ty} {methods : List Signature} {n : Node}
    (answer : Answer ⟨step, (Node.thisOf ty).withSpan step.span, ty, classes⟩ n) :
    ScopeAnswer classes step (.typeDecl ty methods) n
  | stacked {ty : Ty} {n : Node} (answer : Answer ⟨step, .stackedOf ty, ty, classes⟩ n) :
    ScopeAnswer classes step (.bound ty .stacked) n
  | subject {ty : Ty} {subject n : Node} (answer : Answer ⟨step, subject, ty, classes⟩ n) :
    ScopeAnswer classes step (.bound ty (.subject subject)) n

theorem Scope.resolveFrom_answer {cx : Lookup} (hp : cx.navigators.Provided) {ty : Ty}
    {receiver : Node} {step : Step Node} {n : Node}
    (h : resolveFrom cx ty receiver step = some n) : Answer ⟨step, receiver, ty, cx.classes⟩ n := by
  obtain ⟨navigator, hmem, hn⟩ := List.exists_of_findSome?_eq_some h
  obtain ⟨slot, hs, rfl, -⟩ := Registry.mem_lookup hmem
  exact (hp slot hs).answer hn

/-- Nothing is above a primitive, and it has no members. -/
theorem ClassTable.walk_prim (classes : ClassTable) (k : Prim) :
    classes.walk (.prim k) = [.prim k] := by
  simp [walk, climb, supers]

theorem ClassTable.member?_prim (classes : ClassTable) (k : Prim) (find : ClassDef → Option Ty) :
    classes.member? (.prim k) find = none := by
  simp [member?, walk_prim, Ty.className?]

theorem Prim.name_ne_object (k : Prim) : k.name ≠ Ty.object.key := by
  cases k <;> decide

/-- No step goes on from a value of primitive type. -/
theorem Scope.resolveFrom_prim {cx : Lookup} (hp : cx.navigators.Provided) {k : Prim}
    {receiver : Node} {step : Step Node} : resolveFrom cx (.prim k) receiver step = none := by
  refine List.findSome?_eq_none_iff.2 fun navigator hmem => ?_
  obtain ⟨slot, hs, rfl, super, hsuper, hkey⟩ := Registry.mem_lookup hmem
  rw [ClassTable.walk_prim, List.mem_singleton] at hsuper
  subst hsuper
  have noRead (name : String) :
      Request.readProperty? ⟨step, receiver, .prim k, cx.classes⟩ name = none := by
    simp [Request.readProperty?, ClassTable.property?, ClassTable.member?_prim]
  have noCall (name : String) :
      Request.callMethod? ⟨step, receiver, .prim k, cx.classes⟩ name = none := by
    simp [Request.callMethod?, ClassTable.method?, ClassTable.member?_prim]
  have provided := hp slot hs
  rw [hkey] at provided
  generalize hkeyed : (Ty.prim k).key = key at provided
  generalize slot.2 = navigator at provided ⊢
  cases provided with
  | identity => exact absurd hkeyed k.name_ne_object
  | namedProperty => exact Option.bind_eq_none_iff.2 fun name _ => noRead name
  | namedMethod => exact Option.bind_eq_none_iff.2 fun name _ => noCall name
  | fixedProperty key label property => exact noRead property
  | fixedMethod key label method => exact noCall method

theorem Scope.resolveFrom_reference {cx : Lookup} (hp : cx.navigators.Provided) {ty : Ty}
    {receiver : Node} {step : Step Node} {n : Node} (h : resolveFrom cx ty receiver step = some n) :
    ty.isPrimitive = false := by
  cases ty with
  | prim k =>
    rw [resolveFrom_prim hp] at h
    cases h
  | named | app | array | null => rfl

theorem Scope.resolve_answer {cx : Lookup} (hp : cx.navigators.Provided) {scope : Scope}
    {step : Step Node} {place : Place} {n : Node} (h : scope.resolve cx step place = some n) :
    ScopeAnswer cx.classes step scope n := by
  unfold resolve at h
  split at h
  · obtain ⟨name, -, h⟩ := Option.bind_eq_some_iff.1 h
    obtain ⟨c, -, h⟩ := Option.bind_eq_some_iff.1 h
    cases h
    exact .imported c
  · obtain ⟨name, hname, h⟩ := Option.bind_eq_some_iff.1 h
    obtain ⟨ty, hty, h⟩ := Option.bind_eq_some_iff.1 h
    cases h
    exact .declared hname hty
  · unfold resolveMember at h
    simp only at h
    split at h
    · exact .member (.readProperty h)
    · rename_i name args hx htest
      split at h
      · rename_i sig hsig
        cases h
        exact .own htest hsig
      · exact .member (.callMethod h)
    · cases h
  · exact .stacked (resolveFrom_answer hp h)
  · exact .subject (resolveFrom_answer hp h)
  · cases h

theorem Scopes.resolve_answer {cx : Lookup} (hp : cx.navigators.Provided) {scopes : Scopes}
    {step : Step Node} {place : Place} {n : Node} (h : scopes.resolve cx step place = some n) :
    ∃ scope ∈ scopes, ScopeAnswer cx.classes step scope n := by
  obtain ⟨scope, hs, hn⟩ := List.exists_of_findSome?_eq_some h
  exact ⟨scope, hs, Scope.resolve_answer hp hn⟩

end NavScript
