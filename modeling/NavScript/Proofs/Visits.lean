import NavScript.Proofs.Growth

/-!
# The visits of a resolution

A resolution visits the nodes of a tree one after another. What it visits next below a node, and in
which state, is listed by `parts`: the children in order, except that all arguments of a stream come
before its conditions, and that conditions behind a step without a link are not visited at all. The
body of a method is visited under the scope of the method.

Between one visit and the next the innermost method only gains locals (`InOrder`), and so it does
within one body (`within_run`).
-/

namespace NavScript

namespace Scopes

/-- The locals of the innermost method. -/
def locals? : Scopes → Option (List (String × Ty))
  | [] => none
  | .method locals :: _ => some locals
  | _ :: rest => locals? rest

/-- The scopes inside the innermost method. -/
def insideMethod : Scopes → List Scope
  | [] => []
  | .method _ :: _ => []
  | scope :: rest => scope :: insideMethod rest

theorem Grows.locals? : ∀ {a b : Scopes} {locals : List (String × Ty)}, Grows a b →
    a.locals? = some locals → ∃ more, b.locals? = some (more ++ locals)
  | .method _ :: _, _, _, ⟨more, hb⟩, h => by
    subst hb
    cases h
    exact ⟨more, rfl⟩
  | .imports _ :: rest, _, _, ⟨rest', hb, hg⟩, h | .typeDecl _ _ :: rest, _, _, ⟨rest', hb, hg⟩, h
  | .bound _ _ :: rest, _, _, ⟨rest', hb, hg⟩, h => by
    subst hb
    have ih := Grows.locals? (a := rest) (b := rest') hg h
    exact ih

theorem locals?_declare (name : String) (ty : Ty) {scopes : Scopes} {locals : List (String × Ty)}
    (h : scopes.locals? = some locals) :
    ((scopes.declare? name ty).getD scopes).locals? = some ((name, ty) :: locals) := by
  induction scopes with
  | nil => cases h
  | cons scope rest ih =>
    cases scope with
    | method methodLocals =>
      cases h
      rfl
    | imports | typeDecl | bound =>
      rw [declare_other _ _ _ (by simp)]
      exact ih h

end Scopes

namespace ResolveState

/-- The locals of the innermost method of the first state are still there in the second. -/
def Keeps (st st' : ResolveState) : Prop :=
  ∀ locals, st.scopes.locals? = some locals → ∃ more, st'.scopes.locals? = some (more ++ locals)

theorem Keeps.refl (st : ResolveState) : Keeps st st := fun _ h => ⟨[], h⟩

theorem Keeps.trans {a b c : ResolveState} (h : Keeps a b) (h' : Keeps b c) : Keeps a c := by
  intro locals hl
  obtain ⟨more, hb⟩ := h locals hl
  obtain ⟨more', hc⟩ := h' _ hb
  exact ⟨more' ++ more, by rw [hc, List.append_assoc]⟩

theorem Leads.keeps {st st' : ResolveState} (h : Leads st st') : Keeps st st' :=
  fun _ hl => h.scopes.locals? hl

end ResolveState

namespace Resolve

open ResolveState

/-- A node and the state in which its resolution starts. -/
structure Visit where
  state : ResolveState
  node : Node

/-- The state an action ends in. -/
def after {α : Type} (x : Resolve α) (st : ResolveState) : ResolveState := (x.run st).2

theorem Yields.after {α : Type} {x : Resolve α} {st st' : ResolveState} {a : α}
    (h : Yields x st a st') : after x st = st' := by
  unfold Resolve.after
  rw [show x.run st = _ from h]

/-- The visits of nodes that are resolved one after another. -/
def visits (cx : Context) (st : ResolveState) : List Node → List Visit
  | [] => []
  | n :: rest => ⟨st, n⟩ :: visits cx (after (tree cx n) st) rest

/-- The visits of conditions over candidates of a type. -/
def conditionVisits (candidate : Ty) (st : ResolveState) : List Pending → List Visit
  | [] => []
  | p :: rest =>
    ⟨candidateState candidate st, p.written⟩ ::
      conditionVisits candidate (after (predicate candidate p) st) rest

/-- The visits of the conditions of a stream, up to a step without a link. -/
def linkVisits (cx : Lookup) (view : View) (st : ResolveState) : List Hop → List Visit
  | [] => []
  | h :: rest =>
    match ((link? cx view h.step).run st).1 with
    | .ok (some link) =>
      let candidate := candidateTy view link h rest
      conditionVisits candidate st h.predicates ++
        linkVisits cx (nextView view link h rest)
          (after (h.predicates.mapM (predicate candidate)) st) rest
    | _ => []

/-- The state in which the body of a method is resolved. -/
def bodyState (params : List Param) (st : ResolveState) : ResolveState :=
  { st with scopes := .method (params.map fun p => (p.name, p.ty)).reverse :: st.scopes }

/-- What is visited right below a node, in the order in which it is. -/
def parts (cx : Context) (v : Visit) : List Visit :=
  match v.node.kind with
  | .stream steps =>
    let pending := steps.map (·.map (pending cx))
    match ((pending.mapM hop).run v.state).1 with
    | .ok hops =>
      visits cx v.state (steps.flatMap (·.test.children)) ++
        linkVisits cx.lookup {} (after (pending.mapM hop) v.state) hops
    | .error _ => []
  | .methodDecl d => visits cx (bodyState d.params v.state) d.body
  | kind => visits cx v.state kind.children

/-- What is visited in the resolution of a script. -/
inductive Visited (cx : Context) (root : Node) : Visit → Prop
  | root : Visited cx root ⟨{ scopes := initialScopes cx.env root }, root⟩
  | part {v w : Visit} (above : Visited cx root v) (mem : w ∈ parts cx v) : Visited cx root w

def isMethodDecl (n : Node) : Bool :=
  match n.kind with
  | .methodDecl _ => true
  | _ => false

/-- What is visited below a node, itself included, in the same body. -/
inductive Within (cx : Context) : Visit → Visit → Prop
  | refl (v : Visit) : Within cx v v
  | part {v w x : Visit} (body : isMethodDecl v.node = false) (mem : w ∈ parts cx v)
    (below : Within cx w x) : Within cx v x

theorem Within.visited {cx : Context} {root : Node} {v x : Visit} (h : Within cx v x) :
    Visited cx root v → Visited cx root x := by
  induction h with
  | refl => exact id
  | part _ mem _ ih => exact fun hv => ih (hv.part mem)

/-- The visits take place one after another between two states, and none ends in a fault; up to,
between and after them the innermost method keeps its locals. -/
inductive InOrder (cx : Context) : ResolveState → List Visit → ResolveState → Prop
  | nil {st st' : ResolveState} (keeps : Keeps st st') : InOrder cx st [] st'
  | cons {st st' mid : ResolveState} {v : Visit} {n : Node} {rest : List Visit}
    (keeps : Keeps st v.state) (run : Yields (tree cx v.node) v.state n mid)
    (others : InOrder cx mid rest st') : InOrder cx st (v :: rest) st'

theorem InOrder.append {cx : Context} : ∀ {vs ws : List Visit} {a b c : ResolveState},
    InOrder cx a vs b → InOrder cx b ws c → InOrder cx a (vs ++ ws) c
  | [], _, _, _, _, .nil h, .nil h' => .nil (h.trans h')
  | [], _, _, _, _, .nil h, .cons h' run others => .cons (h.trans h') run others
  | _ :: _, _, _, _, _, .cons h run others, h' => .cons h run (others.append h')

theorem InOrder.split {cx : Context} : ∀ {vs ws : List Visit} {a c : ResolveState},
    InOrder cx a (vs ++ ws) c → ∃ b, InOrder cx a vs b ∧ InOrder cx b ws c
  | [], _, a, _, h => ⟨a, .nil (.refl a), h⟩
  | _ :: vs, _, _, _, .cons h run others => by
    obtain ⟨b, hv, hw⟩ := InOrder.split (show InOrder cx _ (vs ++ _) _ from others)
    exact ⟨b, .cons h run hv, hw⟩

theorem InOrder.keeps {cx : Context} : ∀ {vs : List Visit} {a b : ResolveState},
    InOrder cx a vs b → Keeps a b
  | [], _, _, .nil h => h
  | _ :: _, _, _, .cons h run others => (h.trans (tree_leads _ run).keeps).trans others.keeps

theorem visits_inOrder {cx : Context} : ∀ {ns ns' : List Node} {st st' : ResolveState},
    Yields (ns.mapM (tree cx)) st ns' st' → InOrder cx st (visits cx st ns) st'
  | [], _, st, _, h => by
    obtain ⟨-, rfl⟩ := yields_mapM_nil.1 h
    exact .nil (.refl _)
  | n :: ns, _, st, st', h => by
    obtain ⟨n', mid, ns', hn, hns, -⟩ := yields_mapM_cons.1 h
    rw [visits, hn.after]
    exact .cons (.refl _) hn (visits_inOrder hns)

theorem conditionVisits_inOrder {cx : Context} {candidate : Ty} :
    ∀ {ps : List Pending} {links : List Link} {st st' : ResolveState},
      (∀ p ∈ ps, p.resolve = tree cx p.written) →
      Yields (ps.mapM (predicate candidate)) st links st' →
        InOrder cx st (conditionVisits candidate st ps) st'
  | [], _, st, _, _, h => by
    obtain ⟨-, rfl⟩ := yields_mapM_nil.1 h
    exact .nil (.refl _)
  | p :: ps, _, st, st', hps, h => by
    obtain ⟨link, mid, links, hp, hrest, -⟩ := yields_mapM_cons.1 h
    have ih := conditionVisits_inOrder (fun q hq => hps q (List.mem_cons_of_mem _ hq)) hrest
    rw [conditionVisits, hp.after]
    obtain ⟨cond, inner, top, rest, hrun, hscopes, rfl, -⟩ := yields_predicate.1 hp
    rw [hps p (List.mem_cons_self ..)] at hrun
    have hpop : Keeps inner { inner with scopes := rest } := by
      obtain ⟨rest', heq, -⟩ := (tree_leads _ hrun).scopes
      rw [hscopes] at heq
      cases heq
      intro locals hl
      rw [hscopes] at hl
      exact ⟨[], hl⟩
    refine .cons (v := ⟨_, p.written⟩) (fun locals hl => ⟨[], hl⟩) hrun ?_
    exact (InOrder.nil hpop).append ih

theorem link?_run {cx : Context} {view : View} {step : Step Node} {st : ResolveState} {link : Option Link}
    (h : LinkOf cx.lookup view step st.scopes link) :
    ((link? cx.lookup view step).run st).1 = .ok link := by
  rw [show (link? cx.lookup view step).run st = _ from yields_link?.2 ⟨rfl, h⟩]

theorem linkVisits_inOrder {cx : Context} : ∀ {hops : List Hop} {view : View}
    {found : Option (List Link)} {st st' : ResolveState},
    (∀ h ∈ hops, ∀ p ∈ h.predicates, p.resolve = tree cx p.written) →
    Yields (links cx.lookup view hops) st found st' →
      InOrder cx st (linkVisits cx.lookup view st hops) st'
  | [], _, _, st, _, _, h => by
    obtain ⟨-, rfl⟩ := yields_links_nil.1 h
    exact .nil (.refl _)
  | hop :: rest, view, _, st, st', hhops, h => by
    rw [linkVisits]
    rcases yields_links_cons.1 h with ⟨hl, -, rfl⟩ | ⟨link, cs, mid, others, hl, hc, ho, -⟩
    · rw [link?_run hl]
      exact .nil fun locals hl => ⟨[], hl⟩
    · simp only [link?_run hl, hc.after]
      refine (conditionVisits_inOrder ?_ hc).append (linkVisits_inOrder ?_ ho)
      · exact hhops hop (List.mem_cons_self ..)
      · exact fun h hh => hhops h (List.mem_cons_of_mem _ hh)

/-- The arguments of the steps of a stream are resolved first, those of all steps. -/
theorem hops_run {cx : Context} {steps : List (Step Node)} {hops : List Hop} {st st' : ResolveState}
    (h : Yields ((steps.map (·.map (pending cx))).mapM hop) st hops st') :
    (∃ ns, Yields ((steps.flatMap (·.test.children)).mapM (tree cx)) st ns st') ∧
      ∀ h ∈ hops, ∀ p ∈ h.predicates, p.resolve = tree cx p.written := by
  refine ⟨⟨_, hops_arguments h⟩, fun made hmade p hp => ?_⟩
  obtain ⟨c, -, rfl⟩ := hops_pending h made hmade p hp
  rfl

theorem parts_of_children {cx : Context} {st : ResolveState} {span : Span} {ty : Option Ty}
    {kind : Kind Node} (h : kind.label ∉ ["Stream", "MethodDecl"]) :
    parts cx ⟨st, span, ty, kind⟩ = visits cx st kind.children := by
  cases kind
  case stream | methodDecl => exact absurd (by simp [Kind.label]) h
  all_goals rfl

theorem isMethodDecl_iff {n : Node} : isMethodDecl n = true ↔ n.label = "MethodDecl" := by
  unfold isMethodDecl Node.label
  cases n.kind <;> simp [Kind.label]

/-- A visit that makes a tree has its parts in order: in its own scopes, or in those of a body. -/
theorem parts_inOrder {cx : Context} {v : Visit} {n : Node} {st' : ResolveState}
    (h : Yields (tree cx v.node) v.state n st') :
    (isMethodDecl v.node = false ∧ InOrder cx v.state (parts cx v) st') ∨
      ∃ d last, v.node.kind = .methodDecl d ∧
        InOrder cx (bodyState d.params v.state) (parts cx v) last := by
  obtain ⟨st, span, ty, kind⟩ := v
  cases nodeRun h with
  | @stream steps n run =>
    obtain ⟨-, hops, mid, found, last, hh, hl, h⟩ := yields_stream.1 run
    obtain ⟨⟨ns, hns⟩, hps⟩ := hops_run hh
    have hlast : Keeps last st' := by
      rcases h with ⟨-, rfl, -⟩ | ⟨list, made, next, -, -, rfl, -⟩
      · exact .refl _
      · exact fun locals hl => ⟨[], hl⟩
    have hparts := ((visits_inOrder hns).append (linkVisits_inOrder hps hl)).append (.nil hlast)
    refine .inl ⟨rfl, ?_⟩
    simp only [parts]
    rw [show ((steps.map (·.map (pending cx))).mapM hop).run st = _ from hh, hh.after]
    simpa using hparts
  | name run =>
    obtain ⟨_, _, hrun, h⟩ := yields_bind.1 run
    exact .inl ⟨rfl, .nil (Leading.bare run).keeps⟩
  | call hargs run =>
    refine .inl ⟨rfl, ?_⟩
    simpa [parts, Kind.children] using (visits_inOrder hargs).append (.nil (Leading.bare run).keeps)
  | methodDecl run =>
    obtain ⟨mid, top, rest, hrun, -, -⟩ := yields_inScope.1 run
    exact .inr ⟨_, mid, rfl, visits_inOrder hrun⟩
  | @localDecl x written value value' mid run last =>
    have hlast : Keeps mid st' := by
      rw [last]
      unfold declared
      split
      · exact fun _ hl => (Scopes.Grows.declare ..).locals? hl
      · exact .refl _
    exact .inl ⟨rfl, .cons (.refl _) run (.nil hlast)⟩
  | script run =>
    rw [parts_of_children (by simp [Kind.label])]
    exact .inl ⟨rfl, visits_inOrder run⟩
  | children other run =>
    simp only [List.mem_cons, List.not_mem_nil, or_false, not_or] at other
    rw [parts_of_children (by simp [other])]
    refine .inl ⟨?_, visits_inOrder (runs.runs_children run).1⟩
    rw [Bool.eq_false_iff, Ne, isMethodDecl_iff]
    exact other.2.2.2.1

/-- Whatever is visited makes a tree if the whole does, and a method or the script is open then. -/
theorem Visited.run {cx : Context} {root root' : Node} {st' : ResolveState} {v : Visit}
    (h : Visited cx root v)
    (hroot : Yields (tree cx root) { scopes := initialScopes cx.env root } root' st') :
    (∃ n last, Yields (tree cx v.node) v.state n last) ∧ v.state.scopes.locals?.isSome := by
  induction h with
  | root => exact ⟨⟨root', st', hroot⟩, rfl⟩
  | @part v w _ mem ih =>
    obtain ⟨⟨n, last, hn⟩, hlocals⟩ := ih
    have member {first last : ResolveState} (hparts : InOrder cx first (parts cx v) last)
        (hfirst : first.scopes.locals?.isSome) :
        (∃ n last, Yields (tree cx w.node) w.state n last) ∧ w.state.scopes.locals?.isSome := by
      obtain ⟨before, rest, heq⟩ := List.append_of_mem mem
      rw [heq] at hparts
      obtain ⟨mid, hbefore, hw⟩ := hparts.split
      cases hw with
      | cons hkeeps hrun _ =>
        obtain ⟨locals, hl⟩ := Option.isSome_iff_exists.1 hfirst
        obtain ⟨more, hl⟩ := (hbefore.keeps.trans hkeeps) locals hl
        exact ⟨⟨_, _, hrun⟩, by rw [hl]; rfl⟩
    rcases parts_inOrder hn with ⟨-, hparts⟩ | ⟨d, last, -, hparts⟩
    · exact member hparts hlocals
    · exact member hparts rfl

/-- What is visited in one body makes a tree if the whole does, and locals stay up to it and from
it on. -/
theorem Within.run {cx : Context} {v x : Visit} (h : Within cx v x) :
    ∀ {n : Node} {st' : ResolveState}, Yields (tree cx v.node) v.state n st' →
      Keeps v.state x.state ∧
        ∃ n' last, Yields (tree cx x.node) x.state n' last ∧ Keeps last st' := by
  induction h with
  | refl v => exact fun h => ⟨.refl _, _, _, h, .refl _⟩
  | @part v w x body mem _ ih =>
    intro n st' hn
    rcases parts_inOrder hn with ⟨-, hparts⟩ | ⟨d, last, hd, -⟩
    · obtain ⟨before, rest, heq⟩ := List.append_of_mem mem
      rw [heq] at hparts
      obtain ⟨mid, hbefore, hw⟩ := hparts.split
      cases hw with
      | cons hkeeps hrun others =>
        obtain ⟨hup, n', last, hx, hdown⟩ := ih hrun
        exact ⟨(hbefore.keeps.trans hkeeps).trans hup, n', last, hx, hdown.trans others.keeps⟩
    · unfold isMethodDecl at body
      rw [hd] at body
      cases body

/-- Of two parts of a visit, the locals at the end of what is within the first are there at the
start of what is within the second. -/
theorem later_keeps {cx : Context} {v a b x y : Visit} {n : Node} {st' : ResolveState}
    {before between rest : List Visit} (hv : Yields (tree cx v.node) v.state n st')
    (hparts : parts cx v = before ++ a :: between ++ b :: rest) (hx : Within cx a x)
    (hy : Within cx b y) :
    ∃ n' last, Yields (tree cx x.node) x.state n' last ∧ Keeps last y.state := by
  have ordered {first last : ResolveState} (h : InOrder cx first (parts cx v) last) :
      ∃ n' last, Yields (tree cx x.node) x.state n' last ∧ Keeps last y.state := by
    rw [hparts] at h
    obtain ⟨mid, h, hb⟩ := h.split
    obtain ⟨_, -, ha⟩ := h.split
    cases ha with
    | cons _ hrun others =>
      obtain ⟨-, n', last, hx, hdown⟩ := hx.run hrun
      cases hb with
      | cons hkeeps hrun _ =>
        obtain ⟨hup, -⟩ := hy.run hrun
        exact ⟨n', last, hx, ((hdown.trans others.keeps).trans hkeeps).trans hup⟩
  rcases parts_inOrder hv with ⟨-, h⟩ | ⟨d, last, -, h⟩
  · exact ordered h
  · exact ordered h

end Resolve

end NavScript
