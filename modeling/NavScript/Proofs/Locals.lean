import NavScript.Analysis
import NavScript.Proofs.Visits

/-!
# Declared locals

A local is declared when the pass reaches its declaration and knows a type: the written one, or that
of the value as it is by then. From there on a bare name in the same body is that local, whatever
else the scopes outside know under the name. Only candidates of conditions come before it, where
they have a member of the name. The name may also be written as a stream of one step.

Without a type nothing is declared, and the name goes on to the scopes outside. That is the fate of
a local over an expression that only the later passes give a type to, such as a sum of numbers.
-/

namespace NavScript

theorem Step.resolve_localOf {cx : Lookup} {step : Step Node} {name : String}
    (h : step.childName? = some name) :
    ∀ {scopes : Scopes} {locals : List (String × Ty)} {ty : Ty},
      (∀ scope ∈ scopes.insideMethod, scope.resolve cx step .head = none) →
      scopes.locals? = some locals → locals.lookup name = some ty →
        scopes.resolve cx step .head = some ((Node.localOf name ty).withSpan step.span)
  | .method _ :: _, _, ty, _, hl, hty => by
    cases hl
    simp [Scopes.resolve, Scope.resolve, Scope.resolveLocal, h, hty]
  | .imports names :: rest, _, ty, hdecline, hl, hty
  | .typeDecl names methods :: rest, _, ty, hdecline, hl, hty
  | .bound names origin :: rest, _, ty, hdecline, hl, hty => by
    have first := hdecline _ (List.mem_cons_self ..)
    have hrest : ∀ scope ∈ Scopes.insideMethod rest, scope.resolve cx step .head = none :=
      fun scope hs => hdecline scope (List.mem_cons_of_mem _ hs)
    have others := Step.resolve_localOf h hrest hl hty
    rw [Scopes.resolve, List.findSome?_cons, first]
    exact others

theorem lookup_append_isSome {name : String} {more locals : List (String × Ty)}
    (h : (locals.lookup name).isSome) : ((more ++ locals).lookup name).isSome := by
  rw [List.lookup_append]
  cases more.lookup name <;> simp [h]

namespace Resolve

open ResolveState

/-- The step that a bare name is, or a stream of one step without conditions. -/
def bareStep? (n : Node) : Option (Step Node) :=
  match n.kind with
  | .name x => some { span := n.span, axis := .child, test := .name x }
  | .stream [⟨span, .child, .name x, []⟩] => some ⟨span, .child, .name x, []⟩
  | _ => none

theorem bareStep?_cases {n : Node} {step : Step Node} {x : String} (h : bareStep? n = some step)
    (hx : step.childName? = some x) :
    (n.kind = .name x ∧ step = { span := n.span, axis := .child, test := .name x }) ∨
      (n.kind = .stream [step] ∧ step = ⟨step.span, .child, .name x, []⟩) := by
  unfold bareStep? at h
  split at h
  · rename_i y hk
    cases h
    cases hx
    exact .inl ⟨hk, rfl⟩
  · rename_i span y hk
    cases h
    cases hx
    exact .inr ⟨hk, rfl⟩
  · cases h

/-- A bare name that the innermost scopes answer with a local becomes a reference to it. -/
theorem yields_localRef {cx : Context} {n : Node} {step : Step Node} {x : String} {ty : Ty}
    {st : ResolveState} (hstep : bareStep? n = some step) (hx : step.childName? = some x)
    (hr : st.scopes.resolve cx.lookup step .head = some ((Node.localOf x ty).withSpan step.span)) :
    Yields (tree cx n) st ⟨n.span, some ty, .localRef x⟩ st := by
  obtain ⟨span, written, kind⟩ := n
  rcases bareStep?_cases hstep hx with ⟨rfl, rfl⟩ | ⟨rfl, hs⟩
  · rw [tree_mk]
    refine yields_bind.2 ⟨some (_, ty), st, yields_answer?.2 ⟨rfl, .inr ⟨_, ty, rfl, ?_, hr⟩⟩, ?_⟩
    · rfl
    · exact yields_pure.2 ⟨rfl, rfl⟩
  · rw [hs] at hr ⊢
    rw [tree_mk]
    show Yields (stream cx span written [⟨step.span, .child, .name x, []⟩]) st _ st
    refine yields_stream.2 ⟨List.cons_ne_nil _ _, [⟨⟨step.span, .child, .name x, []⟩, []⟩], st,
      some [.step ((Node.localOf x ty).withSpan step.span) ty], st, ?_, ?_, ?_⟩
    · exact yields_mapM_cons.2 ⟨_, st, [], yields_hop.2 ⟨.name x, yields_pure.2 ⟨rfl, rfl⟩, rfl⟩,
        yields_mapM_nil.2 ⟨rfl, rfl⟩, rfl⟩
    · refine yields_links_cons.2 (.inr ⟨_, [], st, some [], .step nofun hr rfl, ?_, ?_, rfl⟩)
      · exact yields_mapM_nil.2 ⟨rfl, rfl⟩
      · exact yields_links_nil.2 ⟨rfl, rfl⟩
    · refine .inr ⟨_, (Node.localOf x ty).withSpan step.span, st.nextFresh, rfl, ?_, rfl, rfl⟩
      rw [Lower.makes_scalar_step]
      simp only [List.isEmpty_nil, Bool.not_true, Bool.and_false, Bool.false_eq_true, if_false]
      exact Lower.makes_scalar_nil.2 ⟨rfl, rfl⟩

/-- A declaration resolves its value, and declares the local if there is a type. -/
theorem yields_localDecl {cx : Context} {st st' : ResolveState} {span : Span} {ty written : Option Ty}
    {x : String} {value n : Node}
    (h : Yields (tree cx ⟨span, ty, .localDecl x written value⟩) st n st') :
    ∃ value' mid, Yields (tree cx value) st value' mid ∧
      n = ⟨span, written <|> value'.ty, .localDecl x written value'⟩ ∧ st' = declared x n.ty mid := by
  cases nodeRun h with
  | localDecl run last => exact ⟨_, _, run, rfl, last⟩
  | children other => exact absurd (by simp [Kind.label]) other

/-- Which local a bare name behind a declaration is. Of two parts of what is visited, the
declaration is in the same body within the first, and the name within the second, outside all
conditions over candidates that answer to it. If the declaration has a type when it is resolved,
the name becomes a reference to a local; if not, the declaration does to the state what its value
does, and nothing is declared. -/
theorem localRef_after_localDecl {cx : Context} {root root' : Node} {ds : List Diagnostic}
    (hroot : resolveNavigation cx root = (.ok root', ds)) {v a b : Visit}
    {before between rest : List Visit} (hv : Visited cx root v)
    (hparts : parts cx v = before ++ a :: between ++ b :: rest)
    {std : ResolveState} {span : Span} {ty written : Option Ty} {x : String} {value : Node}
    (hd : Within cx a ⟨std, span, ty, .localDecl x written value⟩)
    {u : Visit} (hu : Within cx b u) {step : Step Node} (hstep : bareStep? u.node = some step)
    (hx : step.childName? = some x)
    (hclear : ∀ scope ∈ u.state.scopes.insideMethod, scope.resolve cx.lookup step .head = none) :
    ∃ d last, Yields (tree cx ⟨span, ty, .localDecl x written value⟩) std d last ∧
      (d.ty.isSome → ∃ ty', Yields (tree cx u.node) u.state ⟨u.node.span, some ty', .localRef x⟩
        u.state) ∧
      (d.ty = none → ∃ value', Yields (tree cx value) std value' last) := by
  obtain ⟨st', hrun, -⟩ := resolveNavigation_ok hroot
  obtain ⟨⟨n, last, hn⟩, -⟩ := hv.run hrun
  have hvisited : Visited cx root ⟨std, span, ty, .localDecl x written value⟩ :=
    hd.visited (hv.part (by rw [hparts]; simp))
  obtain ⟨d, last, hdecl, hkeeps⟩ := later_keeps hn hparts hd hu
  obtain ⟨value', mid, hvalue, hdeq, hlast⟩ := yields_localDecl hdecl
  refine ⟨d, last, hdecl, fun htyped => ?_, fun huntyped => ?_⟩
  · obtain ⟨dty, hdty⟩ := Option.isSome_iff_exists.1 htyped
    obtain ⟨locals, hl⟩ := Option.isSome_iff_exists.1 (hvisited.run hrun).2
    obtain ⟨more, hl⟩ := (tree_leads _ hvalue).keeps locals hl
    have hl : last.scopes.locals? = some ((x, dty) :: (more ++ locals)) := by
      rw [hlast, hdty]
      exact Scopes.locals?_declare x dty hl
    obtain ⟨later, hl⟩ := hkeeps _ hl
    have hfound : ((later ++ (x, dty) :: (more ++ locals)).lookup x).isSome :=
      lookup_append_isSome (by simp)
    obtain ⟨ty', hty'⟩ := Option.isSome_iff_exists.1 hfound
    exact ⟨ty', yields_localRef hstep hx (Step.resolve_localOf hx hclear hl hty')⟩
  · rw [hlast, huntyped]
    exact ⟨value', hvalue⟩

/-- Scripts over a person with an age, who is `this`. -/
def personContext : Context where
  classes := ⟨[{ className := ⟨"Object", none⟩ },
    { className := ⟨"Person", none⟩, properties := [("age", .prim .int)] }]⟩
  navigators := .standard .firstWins
  operators := {}
  config := {}
  env := { binding := .ofClass "Person" }

def digit (i : Fin 10) : Node :=
  .ofLiteral (.int ⟨i, by simp [Word.half], by simp [Word.half]; omega⟩)

def ageDecl (value : Node) : Node := .ofKind (.localDecl "age" none value)

/-- Declares an age and reads it. -/
def ageScript (value : Node) : Node := .ofKind (.script [ageDecl value, .ofKind (.name "age")])

/-- Over a value whose type is known the name is the local, although the person has an age. -/
theorem localRef_after_ageDecl :
    let first : ResolveState := { scopes := initialScopes personContext.env (ageScript (digit 1)) }
    let second := after (tree personContext (ageDecl (digit 1))) first
    ∃ ty, Yields (tree personContext (.ofKind (.name "age"))) second
      ⟨.synthetic, some ty, .localRef "age"⟩ second := by
  intro first second
  obtain ⟨root', hroot⟩ : ∃ root',
      resolveNavigation personContext (ageScript (digit 1)) = (.ok root', []) := ⟨_, rfl⟩
  have hparts : parts personContext ⟨first, ageScript (digit 1)⟩ =
      [] ++ ⟨first, ageDecl (digit 1)⟩ :: [] ++ ⟨second, .ofKind (.name "age")⟩ :: [] := rfl
  obtain ⟨d, last, hd, htyped, -⟩ :=
    localRef_after_localDecl hroot .root hparts (.refl _) (.refl _) rfl rfl nofun
  have hrun : Yields (tree personContext (ageDecl (digit 1))) first
      ⟨.synthetic, some (.prim .int), .localDecl "age" none (digit 1)⟩ second := rfl
  obtain ⟨rfl, -⟩ := hrun.unique hd
  exact htyped rfl

set_option maxRecDepth 2000 in
/-- Over a sum the name is the person's age, and nothing tells: the sum gets its type from a later
pass. -/
theorem ageScript_sum :
    analyze personContext (ageScript (.ofKind (.binary .add (digit 1) (digit 2)))) =
      .ok ⟨⟨.synthetic, some (.prim .int),
        .script [ageDecl (digit 3),
          ⟨.synthetic, some (.prim .int), .propertyRead (.thisOf (.ofClass "Person")) "age"⟩]⟩,
        []⟩ :=
  rfl

end Resolve

end NavScript
