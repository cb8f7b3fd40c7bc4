import NavScript.Proofs.Chains
import NavScript.Proofs.Views

/-!
# What navigations are made of

The answers of scopes and the lowering of links put nodes of a few kinds around what is there: the
arguments of calls and the conditions (`Kind.glues`). A property that passes through these kinds
(`Hereditary`) holds of a resolved navigation if it holds of its arguments and conditions. Lowering goes
link by link, so what it passes on is found step by step (`Lowers`).
-/

namespace NavScript

open Lower

/-- The kinds of nodes that answers and lowering make. -/
def Kind.glues {α : Type} : Kind α → Bool
  | literal _ | conditional _ _ _ | this | stacked | localRef _ | typeRef _ | propertyRead _ _
  | methodCall _ _ _ _ | convert _ _ | toSequence _ | pipe _ _ _ _ | collect _ _ | letIn _ _ _
  | isNull _ | sequence _ | stackOp _ => true
  | _ => false

/-- A node of such a kind has the property if its children have it. -/
structure Hereditary (P : Node → Prop) : Prop where
  iff : ∀ {kind : Kind Node}, kind.glues = true → ∀ span ty,
    P ⟨span, ty, kind⟩ ↔ ∀ c ∈ kind.children, P c

namespace Hereditary

variable {P : Node → Prop} (h : Hereditary P)
include h

theorem leaf {kind : Kind Node} (glues : kind.glues = true) (none : kind.children = [])
    (span : Span) (ty : Option Ty) : P ⟨span, ty, kind⟩ := by
  rw [h.iff glues, none]
  exact fun _ hc => absurd hc List.not_mem_nil

theorem convertTo {e : Node} (he : P e) (c : Conversion) (ty : Ty) : P (.convertTo c e ty) :=
  (h.iff rfl _ _).2 fun _ hc => List.mem_singleton.1 hc ▸ he

theorem sequence {items : List Node} (hitems : ∀ c ∈ items, P c) (span : Span) (ty : Option Ty) :
    P ⟨span, ty, .sequence items⟩ :=
  (h.iff rfl _ _).2 hitems

theorem pair {kind : Kind Node} {l r : Node} (glues : kind.glues = true)
    (both : kind.children = [l, r]) (hl : P l) (hr : P r) (span : Span) (ty : Option Ty) :
    P ⟨span, ty, kind⟩ := by
  rw [h.iff glues, both]
  intro c hc
  rcases List.mem_cons.1 hc with rfl | hc
  · exact hl
  · exact List.mem_singleton.1 hc ▸ hr

theorem conditional {c t e : Node} (hc : P c) (ht : P t) (he : P e) (span : Span) (ty : Option Ty) :
    P ⟨span, ty, .conditional c t e⟩ := by
  rw [h.iff rfl]
  intro d hd
  rcases List.mem_cons.1 hd with rfl | hd
  · exact hc
  · rcases List.mem_cons.1 hd with rfl | hd
    · exact ht
    · exact List.mem_singleton.1 hd ▸ he

theorem answer {r : Request} {n : Node} (hanswer : Answer r n) (receiver : ∀ ty, P (r.receiver.withTy ty))
    (hreceiver : P r.receiver) (args : ∀ a ∈ r.args, P a) : P n := by
  cases hanswer with
  | receiver => exact receiver _
  | property => exact (h.iff rfl _ _).2 fun _ hc => List.mem_singleton.1 hc ▸ hreceiver
  | method =>
    refine (h.iff rfl _ _).2 fun c hc => ?_
    rcases List.mem_cons.1 hc with rfl | hc
    · exact hreceiver
    · exact args c hc

/-- The answer of a scope, whose subject is a leaf. -/
theorem scopeAnswer {classes : ClassTable} {step : Step Node} {scope : Scope} {n : Node}
    (hanswer : ScopeAnswer classes step scope n)
    (subject : ∀ ty m, scope = .bound ty (.subject m) → m.kind.glues = true ∧ m.kind.children = [])
    (args : ∀ a ∈ step.test.children, P a) : P n := by
  cases hanswer with
  | imported | declared => exact h.leaf rfl rfl _ _
  | own =>
    refine (h.iff rfl _ _).2 fun c hc => ?_
    rcases List.mem_cons.1 hc with rfl | hc
    · exact h.leaf rfl rfl _ _
    · exact args c hc
  | member answer => exact h.answer answer (fun _ => h.leaf rfl rfl _ _) (h.leaf rfl rfl _ _) args
  | stacked answer => exact h.answer answer (fun _ => h.leaf rfl rfl _ _) (h.leaf rfl rfl _ _) args
  | @subject ty m n answer =>
    obtain ⟨span, ty', kind⟩ := m
    obtain ⟨glues, none⟩ := subject ty _ rfl
    exact h.answer answer (fun _ => h.leaf glues none _ _) (h.leaf glues none _ _) args

end Hereditary

/-! ## Lowering -/

/-- The nodes of a chain have the property; each but the first reads its receiver first. -/
structure Connected (P : Node → Prop) (chain : List Node) : Prop where
  all : ∀ c ∈ chain, P c
  first : ∀ c ∈ chain.tail, ReceiverFirst c

theorem Connected.snoc {P : Node → Prop} {chain : List Node} {n : Node} (hchain : Connected P chain)
    (hn : P n) (first : ReceiverFirst n) : Connected P (chain ++ [n]) := by
  constructor
  · intro c hc
    rcases List.mem_append.1 hc with hc | hc
    · exact hchain.all c hc
    · exact List.mem_singleton.1 hc ▸ hn
  · cases chain with
    | nil => exact fun _ hc => absurd hc List.not_mem_nil
    | cons head rest =>
      intro c hc
      rcases List.mem_append.1 hc with hc | hc
      · exact hchain.first c hc
      · exact List.mem_singleton.1 hc ▸ first

theorem Connected.single {P : Node → Prop} {n : Node} (hn : P n) : Connected P [n] :=
  ⟨fun _ hc => List.mem_singleton.1 hc ▸ hn, fun _ hc => absurd hc List.not_mem_nil⟩

/-- A step has the first property and reads its receiver first, and a condition has the second one. -/
def Link.Parts (P Q : Node → Prop) : Link → Prop
  | .step expr _ => P expr ∧ ReceiverFirst expr
  | .predicate _ cond _ => Q cond
  | .reduce _ _ => True

/-- Lowering makes nodes with the first property of such nodes and of conditions with the second. -/
structure Lowers (b : Bool) (P Q : Node → Prop) : Prop where
  place : ∀ {value n n'}, Placed value n n' → P n → P value → P n'
  guardLink : ∀ {subject body made}, P subject → P body → Lower.guardLink b subject body = .ok made →
    P made
  keepIf : ∀ {cond}, Q cond → ∀ x ty, P (Lower.keepIf x cond ty)
  element : ∀ x ty, P (.localOf x ty)
  sequence : ∀ multi elem, P (stackedSequence multi elem)
  flatten : ∀ {body}, P body → ∀ span ty, P ⟨span, ty, .toSequence body⟩
  pipe : ∀ {source body}, P source → P body → ∀ op x elem, P (pipeOf op source x body elem)
  filter : ∀ {source cond}, P source → Q cond → ∀ x elem,
    P (pipeOf .filter source x (nullSafe x cond elem) elem)
  collect : ∀ {source : Source}, P source.node → ∀ r, P (collectInto source r)

namespace Lowers

variable {b : Bool} {P Q : Node → Prop} (lowers : Lowers b P Q)
include lowers

theorem guardLinks : ∀ {chain : List Node} {made : Node}, (∀ c ∈ chain, P c) →
    Lower.guardLinks b chain = .ok made → P made
  | [], _, _, hmade => absurd hmade guardLinks_nil
  | [n], _, hchain, hmade => by
    cases hmade
    exact hchain n (List.mem_singleton.2 rfl)
  | subject :: next :: rest, _, hchain, hmade => by
    obtain ⟨body, hbody, hmade⟩ := guardLinks_cons.1 hmade
    have hrest := guardLinks (fun c hc => hchain c (List.mem_cons_of_mem _ hc)) hbody
    exact lowers.guardLink (hchain subject (List.mem_cons_self ..)) hrest hmade

theorem close {chain : List Node} {made : Node} (hchain : Connected P chain)
    (hmade : Lower.close b chain = .ok made) : P made := by
  refine lowers.guardLinks (fun c hc => ?_) hmade
  unfold readThis at hc
  split at hc
  · rename_i head next rest
    have hhead := hchain.all head (List.mem_cons_self ..)
    have hnext := hchain.all next (List.mem_cons_of_mem _ (List.mem_cons_self ..))
    split at hc
    · rcases List.mem_cons.1 hc with rfl | hc
      · have first := hchain.first next (List.mem_cons_self ..)
        have placed : placing.rel (placeStacked next) (some head)
          ((placeStacked next).run (some head)).1 ((placeStacked next).run (some head)).2 := rfl
        exact lowers.place (first.placed placed).1 hnext hhead
      · exact hchain.all c (List.mem_cons_of_mem _ (List.mem_cons_of_mem _ hc))
    · exact hchain.all c hc
  · exact hchain.all c hc

theorem stage {source next : Source} {run : List Node} {flatten : Bool} {n m : Nat}
    (hsource : P source.node) (hrun : ∀ c ∈ run, P c)
    (hmade : Makes (Lower.stage b source run flatten) n next m) : P next.node := by
  obtain ⟨body, bodyTy, hbody, -, -, hnext⟩ := makes_stage.1 hmade
  have body : P body := by
    refine lowers.guardLinks (fun c hc => ?_) hbody
    rcases List.mem_cons.1 hc with rfl | hc
    · exact lowers.element ..
    · exact hrun c hc
  split at hnext
  · obtain ⟨inner, -, rfl⟩ := hnext
    exact lowers.pipe hsource (lowers.flatten body ..) ..
  · rw [hnext]
    exact lowers.pipe hsource body ..

theorem flush {source next : Source} {run : List Node} {n m : Nat} (hsource : P source.node)
    (hrun : ∀ c ∈ run, P c) (hmade : Makes (Lower.flush b source run) n next m) : P next.node := by
  rcases makes_flush.1 hmade with ⟨-, rfl, -⟩ | ⟨-, hmade⟩
  · exact hsource
  · exact lowers.stage hsource hrun hmade

/-- Links go on behind a step, also behind one that starts the chain. -/
theorem behind_of {expr : Node} {ty : Ty} {rest : List Link} {chain : List Node} {n m : Nat}
    {made : Node}
    (scalarHas : ∀ {chain : List Node} {n m : Nat} {made : Node},
      Makes (Lower.scalar b chain rest) n made m → Connected P chain → P made)
    (streamHas : ∀ {source : Source} {n m : Nat} {made : Node},
      Makes (Lower.stream b source [] rest) n made m → P source.node → P made)
    (hchain : Connected P (chain ++ [expr]))
    (hmade : Makes (Lower.scalar b chain (.step expr ty :: rest)) n made m) : P made := by
  rw [makes_scalar_step] at hmade
  split at hmade
  · obtain ⟨elem, tail, -, htail, hclose⟩ := hmade
    have opening := stream_opening rest htail (opening_stacked ty elem)
    have longer := hchain.snoc (streamHas htail (lowers.sequence ty elem)) opening.first
    rw [List.append_assoc] at longer
    exact lowers.close longer hclose
  · exact scalarHas hmade hchain

mutual

/-- A lowered navigation has what its chain and its links have. -/
theorem scalar : ∀ (links : List Link) {chain : List Node} {n m : Nat} {made : Node},
    Makes (Lower.scalar b chain links) n made m → (∀ link ∈ links, link.Parts P Q) →
      Connected P chain → P made
  | [], _, _, _, _, hmade, _, hchain => lowers.close hchain (makes_scalar_nil.1 hmade).1
  | .step expr ty :: rest, _, _, _, _, hmade, hlinks, hchain => by
    obtain ⟨hexpr, first⟩ := hlinks _ (List.mem_cons_self ..)
    have hrest : ∀ link ∈ rest, link.Parts P Q := fun l hl => hlinks l (List.mem_cons_of_mem _ hl)
    exact lowers.behind_of (fun made chained => scalar rest made hrest chained)
      (fun made source => stream rest made hrest source fun _ hc => absurd hc List.not_mem_nil)
      (hchain.snoc hexpr first) hmade
  | .predicate x cond ty :: rest, _, _, _, _, hmade, hlinks, hchain => by
    have hcond : Q cond := hlinks _ (List.mem_cons_self ..)
    exact scalar rest (makes_scalar_predicate.1 hmade)
      (fun l hl => hlinks l (List.mem_cons_of_mem _ hl))
      (hchain.snoc (lowers.keepIf hcond x ty) ((ReceiverFirst.stacked _ _).letIn ..))
  | .reduce r ty :: rest, _, _, _, _, hmade, hlinks, hchain => by
    obtain ⟨multi, elem, tail, -, -, htail, hclose⟩ := makes_scalar_reduce.1 hmade
    have tailHas : P tail := scalar rest htail (fun l hl => hlinks l (List.mem_cons_of_mem _ hl))
      (.single (lowers.collect (lowers.sequence multi elem) r))
    have opening := scalar_opening rest htail
      ⟨List.cons_ne_nil _ _, opening_collect (opening_stacked multi elem) r⟩
    exact lowers.close (hchain.snoc tailHas opening.first) hclose

theorem stream : ∀ (links : List Link) {source : Source} {run : List Node} {n m : Nat}
    {made : Node}, Makes (Lower.stream b source run links) n made m →
      (∀ link ∈ links, link.Parts P Q) → P source.node → (∀ c ∈ run, P c) → P made
  | [], _, _, _, _, _, hmade, _, hsource, hrun => by
    obtain ⟨last, hflush, rfl⟩ := makes_stream_nil.1 hmade
    exact lowers.flush hsource hrun hflush
  | .step expr ty :: rest, _, run, _, _, _, hmade, hlinks, hsource, hrun => by
    obtain ⟨hexpr, -⟩ := hlinks _ (List.mem_cons_self ..)
    have hlinks := fun l hl => hlinks l (List.mem_cons_of_mem _ hl)
    have longer : ∀ c ∈ run ++ [expr], P c := by
      intro c hc
      rcases List.mem_append.1 hc with hc | hc
      · exact hrun c hc
      · exact List.mem_singleton.1 hc ▸ hexpr
    rw [makes_stream_step] at hmade
    split at hmade
    · obtain ⟨_, _, hstage, hmade⟩ := hmade
      exact stream rest hmade hlinks (lowers.stage hsource longer hstage)
        fun _ hc => absurd hc List.not_mem_nil
    · exact stream rest hmade hlinks hsource longer
  | .predicate x cond ty :: rest, _, _, _, _, _, hmade, hlinks, hsource, hrun => by
    have hcond : Q cond := hlinks _ (List.mem_cons_self ..)
    obtain ⟨next, _, hflush, hmade⟩ := makes_stream_predicate.1 hmade
    exact stream rest hmade (fun l hl => hlinks l (List.mem_cons_of_mem _ hl))
      (lowers.filter (lowers.flush hsource hrun hflush) hcond _ _)
      fun _ hc => absurd hc List.not_mem_nil
  | .reduce r ty :: rest, _, _, _, _, _, hmade, hlinks, hsource, hrun => by
    obtain ⟨next, _, hflush, hmade⟩ := makes_stream_reduce.1 hmade
    exact scalar rest hmade (fun l hl => hlinks l (List.mem_cons_of_mem _ hl))
      (.single (lowers.collect (lowers.flush hsource hrun hflush) r))

end

/-- A navigation has what its head and its links have. -/
theorem lowered {expr : Node} {ty : Ty} {rest : List Link} {n m : Nat} {made : Node}
    (hexpr : P expr) (hlinks : ∀ link ∈ rest, link.Parts P Q)
    (hmade : Makes (Lower.scalar b [] (.step expr ty :: rest)) n made m) : P made :=
  lowers.behind_of (fun made chained => lowers.scalar rest made hlinks chained)
    (fun made source => lowers.stream rest made hlinks source fun _ hc => absurd hc List.not_mem_nil)
    (.single hexpr) hmade

end Lowers

namespace Hereditary

variable {P : Node → Prop} (h : Hereditary P) {b : Bool}
include h

/-- What is put in the place of the receiver takes its part. -/
theorem place {n n' value : Node} (placed : Placed value n n') (hn : P n) (hvalue : P value) :
    P n' := by
  induction placed with
  | stacked => exact hvalue
  | propertyRead _ _ _ _ ih | convert _ _ _ _ ih | toSequence _ _ _ ih | collect _ _ _ _ ih =>
    have receiver := ih ((h.iff rfl _ _).1 hn _ (List.mem_singleton.2 rfl))
    exact (h.iff rfl _ _).2 fun _ hc => List.mem_singleton.1 hc ▸ receiver
  | methodCall _ _ _ _ _ _ ih | sequence _ _ _ _ ih | pipe _ _ _ _ _ _ ih | letIn _ _ _ _ _ ih =>
    have children := (h.iff rfl _ _).1 hn
    refine (h.iff rfl _ _).2 fun c hc => ?_
    rcases List.mem_cons.1 hc with rfl | hc
    · exact ih (children _ (List.mem_cons_self ..))
    · exact children c (List.mem_cons_of_mem _ hc)

theorem guarded {subject body : Node} (hs : P subject) (hb : P body) (span : Span) (ty stackedTy : Ty) :
    P (guarded span ty subject stackedTy body) := by
  have test : P { ty := some .boolean, kind := .isNull (.stackedOf stackedTy) } :=
    (h.iff rfl _ _).2 fun _ hc => List.mem_singleton.1 hc ▸ h.leaf rfl rfl _ _
  have stop : P { ty := some ty, kind := .sequence [.ofStackOp .pop, .nullOf ty] } :=
    h.pair rfl rfl (h.leaf rfl rfl _ _) (h.leaf rfl rfl _ _) _ _
  refine h.sequence (fun c hc => ?_) _ _
  rcases List.mem_cons.1 hc with rfl | hc
  · exact hs
  · rcases List.mem_cons.1 hc with rfl | hc
    · exact h.leaf rfl rfl _ _
    · exact List.mem_singleton.1 hc ▸ h.conditional test stop hb _ _

theorem boxedAs {n : Node} (hn : P n) (ty : Ty) : P (boxedAs ty n) := by
  unfold Lower.boxedAs
  split
  · exact h.convertTo hn _ _
  · exact hn

theorem guardLink {subject body made : Node} (hs : P subject) (hb : P body)
    (hmade : guardLink b subject body = .ok made) : P made := by
  obtain ⟨subjectTy, bodyTy, -, -, rfl⟩ := guardLink_ok.1 hmade
  unfold handed
  split
  · split
    · refine h.guarded (h.convertTo hs _ _) ?_ _ _ _
      exact h.pair rfl rfl (h.convertTo (h.leaf rfl rfl _ _) _ _) (h.boxedAs hb _) _ _
    · exact h.pair rfl rfl hs hb _ _
  · exact h.guarded hs (h.boxedAs hb _) _ _ _

theorem keepIf {cond : Node} (hc : P cond) (x : String) (ty : Ty) : P (keepIf x cond ty) := by
  unfold Lower.keepIf
  refine h.pair rfl rfl (h.leaf rfl rfl _ _) (h.conditional hc ?_ (h.leaf rfl rfl _ _) _ _) _ _
  split
  · exact h.convertTo (h.leaf rfl rfl _ _) _ _
  · exact h.leaf rfl rfl _ _

theorem nullSafe {cond : Node} (hc : P cond) (x : String) (elem : Ty) : P (nullSafe x cond elem) := by
  unfold Lower.nullSafe
  split
  · exact hc
  · have test : P { ty := some .boolean, kind := .isNull (.localOf x elem) } :=
      (h.iff rfl _ _).2 fun _ hc => List.mem_singleton.1 hc ▸ h.leaf rfl rfl _ _
    exact h.conditional test (h.leaf rfl rfl _ _) hc _ _

/-- What passes through the nodes that lowering makes is passed on by it. -/
theorem lowers : Lowers b P P where
  place := h.place
  guardLink := h.guardLink
  keepIf := h.keepIf
  element _ _ := h.leaf rfl rfl _ _
  sequence _ _ := (h.iff rfl _ _).2 fun _ hc => List.mem_singleton.1 hc ▸ h.leaf rfl rfl _ _
  flatten body _ _ := (h.iff rfl _ _).2 fun _ hc => List.mem_singleton.1 hc ▸ body
  pipe source body _ _ _ := h.pair rfl rfl source body _ _
  filter source cond _ _ := h.pair rfl rfl source (h.nullSafe cond _ _) _ _
  collect source _ := (h.iff rfl _ _).2 fun _ hc => List.mem_singleton.1 hc ▸ source

end Hereditary

/-! ## Resolution -/

/-- A hereditary property that each other node of a resolved tree has over children that have it. -/
structure Resolvable (P : Node → Prop) : Prop extends Hereditary P where
  /-- The region of a node makes no difference. -/
  withSpan : ∀ n span, P n → P (n.withSpan span)
  stream : ∀ span ty steps, P ⟨span, ty, .stream steps⟩
  name : ∀ span ty x, P ⟨span, ty, .name x⟩
  call : ∀ span ty x args, (∀ c ∈ args, P c) → P ⟨span, ty, .call x args⟩
  operator : ∀ {kind : Kind Node}, kind.label ∈ ["Binary", "OperatorCall"] → ∀ span ty,
    (∀ c ∈ kind.children, P c) → P ⟨span, ty, kind⟩
  methodDecl : ∀ span d, (∀ c ∈ d.body, P c) → P ⟨span, some (Resolve.methodTy d), .methodDecl d⟩
  localDecl : ∀ span x written value, P value →
    P ⟨span, written <|> value.ty, .localDecl x written value⟩
  script : ∀ span items, (∀ c ∈ items, P c) →
    P ⟨span, items.getLast?.bind (·.ty), .script items⟩

/-- A leaf that answers can be made over. -/
def Node.IsLeaf (n : Node) : Prop := n.kind.glues = true ∧ n.kind.children = []

namespace Resolve

variable {cx : Context} {P : Node → Prop}

/-- From scopes over leaves the action ends in what has the property. -/
def Gives (P : Node → Prop) (x : Resolve Node) : Prop :=
  ∀ ⦃st n st'⦄, st.scopes.Over Node.IsLeaf → Yields x st n st' → P n

theorem mapM_gives {ns ns' : List Node} {st st' : ResolveState}
    (each : ∀ n ∈ ns, Gives P (tree cx n)) (leaves : st.scopes.Over Node.IsLeaf)
    (h : Yields (ns.mapM (tree cx)) st ns' st') : ∀ n' ∈ ns', P n' := by
  obtain ⟨-, given⟩ := yields_mapM_keeping (·.scopes.Over Node.IsLeaf) (fun _ n' => P n')
    (fun n hn _ _ _ leaves run => ⟨(tree_leads n run).scopes.over leaves, each n hn leaves run⟩)
    leaves h
  intro n' hn'
  obtain ⟨_, -, hP⟩ := given n' hn'
  exact hP

/-- The arguments of the hops have the property, and the conditions give it. -/
def PartsGive (P : Node → Prop) (hops : List Hop) : Prop :=
  ∀ h ∈ hops, (∀ a ∈ h.step.test.children, P a) ∧
    ∀ p ∈ h.predicates, Leading p.resolve ∧ Gives P p.resolve

/-- What becomes of a stream. It is left as it was written, or lowered from an answer of the scopes at
its head to one of its hops and from links of known origin. -/
inductive StreamRun (cx : Context) (P : Node → Prop) (span : Span) (ty : Option Ty)
    (steps : List (Step Node)) : Node → Prop
  | left : StreamRun cx P span ty steps ⟨span, ty, .stream steps⟩
  | lowered {scopes : Scopes} {hops : List Hop} {h : Hop} {expr made : Node} {exprTy : Ty}
    {others : List Link} {n m : Nat} (leaves : scopes.Over Node.IsLeaf)
    (parts : PartsGive P hops) (mem : h ∈ hops)
    (answer : scopes.resolve cx.lookup h.step .head = some expr)
    (origins : ∀ link ∈ others,
      LinkOrigin cx.lookup (fun st => scopes.Grows st.scopes) hops link)
    (run : Makes (Lower.scalar cx.config.boxPrimitiveGuards [] (.step expr exprTy :: others)) n made m) :
    StreamRun cx P span ty steps (made.withSpan span)

theorem streamRun (hp : cx.navigators.Provided) {span : Span} {ty : Option Ty}
    {steps : List (Step Node)} {st st' : ResolveState} {n : Node}
    (each : ∀ c ∈ (Kind.stream steps).children, Gives P (tree cx c))
    (leaves : st.scopes.Over Node.IsLeaf)
    (h : Yields (stream cx span ty (steps.map (·.map (pending cx)))) st n st') :
    StreamRun cx P span ty steps n := by
  obtain ⟨hne, hops, mid, found, last, hh, hl, h⟩ := yields_stream.1 h
  have parts : PartsGive P hops := by
    have arguments := mapM_gives (fun c hc => each c (mem_children_of_argument hc)) leaves
      (hops_arguments hh)
    intro h hmem
    obtain ⟨args, conditions⟩ := hops_parts hh arguments each h hmem
    refine ⟨args, fun p hp => ?_⟩
    obtain ⟨c, rfl, gives⟩ := conditions p hp
    exact ⟨tree_leads c, gives⟩
  have leaves := (hops_lead hh).scopes.over leaves
  rcases h with ⟨-, -, rfl⟩ | ⟨list, made, next, rfl, hmade, -, rfl⟩
  · rw [pending_written]
    exact .left
  · have leading : ∀ h ∈ hops, ∀ p ∈ h.predicates, Leading p.resolve :=
      fun h hmem p hp' => ((parts h hmem).2 p hp').1
    obtain ⟨h, hmem, expr, ty, others, rfl, answer, -, -, origins⟩ :=
      leading_links hp hne hh leading leaves hl
    exact .lowered leaves parts hmem answer origins hmade

section

variable (hereditary : Hereditary P)
include hereditary

/-- What the open scopes answer at the head. -/
theorem head_gives (hp : cx.navigators.Provided) {scopes : Scopes} {step : Step Node} {n : Node}
    (leaves : scopes.Over Node.IsLeaf) (args : ∀ a ∈ step.test.children, P a)
    (answer : scopes.resolve cx.lookup step .head = some n) : P n := by
  obtain ⟨scope, hmem, answered⟩ := Scopes.resolve_answer hp answer
  refine hereditary.scopeAnswer answered (fun ty m heq => ?_) args
  obtain ⟨_, horigin, leaf⟩ := leaves scope hmem ty _ heq
  cases horigin
  exact leaf

/-- The links behind the head have the property if the arguments and the conditions do. -/
theorem link_gives {hops : List Hop} {scopes : Scopes} {link : Link}
    (leaves : scopes.Over Node.IsLeaf) (parts : PartsGive P hops)
    (origin : LinkOrigin cx.lookup (fun st => scopes.Grows st.scopes) hops link) :
    link.Parts P P := by
  cases origin with
  | @step h t ty expr mem answer =>
    exact ⟨hereditary.answer answer (fun _ => hereditary.leaf rfl rfl _ _)
      (hereditary.leaf rfl rfl _ _) (parts h mem).1, answer.first⟩
  | @condition h p candidate st mid cond mem pending grown run =>
    refine ((parts h mem).2 p pending).2 ?_ run
    refine (grown.over leaves).cons fun ty origin heq => ?_
    cases heq
    exact ⟨_, rfl, rfl, rfl⟩
  | reduction r ty => exact trivial

/-- A navigation that is lowered has the property, but for its region. -/
theorem StreamRun.gives (hp : cx.navigators.Provided) {span : Span} {ty : Option Ty}
    {steps : List (Step Node)} {n : Node} (h : StreamRun cx P span ty steps n) :
    n = ⟨span, ty, .stream steps⟩ ∨ ∃ made, P made ∧ n = made.withSpan span := by
  cases h with
  | left => exact .inl rfl
  | lowered leaves parts mem answer origins run =>
    have head := head_gives hereditary hp leaves (parts _ mem).1 answer
    have links := fun link hlink => link_gives hereditary leaves parts (origins link hlink)
    exact .inr ⟨_, hereditary.lowers.lowered head links run, rfl⟩

end

variable (resolvable : Resolvable P) (hp : cx.navigators.Provided)
include resolvable hp

theorem bare_gives {span : Span} {ty : Option Ty} {kind : Kind Node} {test : Test Node}
    {st st' : ResolveState} {n : Node} (leaves : st.scopes.Over Node.IsLeaf)
    (args : ∀ a ∈ test.children, P a) (unanswered : P ⟨span, ty, kind⟩)
    (h : Yields (bare cx.lookup ⟨span, ty, kind⟩ test) st n st') : P n := by
  obtain ⟨answer, mid, hanswer, h⟩ := yields_bind.1 h
  obtain ⟨rfl, hanswer⟩ := yields_answer?.1 hanswer
  rcases hanswer with ⟨rfl, -⟩ | ⟨found, foundTy, rfl, -, hfound⟩
  · obtain ⟨rfl, -⟩ := yields_pure.1 h
    exact unanswered
  · obtain ⟨rfl, -⟩ := yields_pure.1 h
    exact resolvable.withSpan _ _ (head_gives resolvable.toHereditary hp leaves args hfound)

theorem stream_gives {span : Span} {ty : Option Ty} {steps : List (Step Node)}
    {st st' : ResolveState} {n : Node}
    (each : ∀ c ∈ (Kind.stream steps).children, Gives P (tree cx c))
    (leaves : st.scopes.Over Node.IsLeaf)
    (h : Yields (stream cx span ty (steps.map (·.map (pending cx)))) st n st') : P n := by
  obtain rfl | ⟨made, has, rfl⟩ := (streamRun hp each leaves h).gives resolvable.toHereditary hp
  · exact resolvable.stream ..
  · exact resolvable.withSpan _ _ has

/-- Resolved trees have the property. -/
theorem tree_gives (n : Node) : Gives P (tree cx n) := by
  induction n using Node.induct with
  | h span ty kind ih =>
    intro st n st' leaves h
    cases nodeRun h with
    | @stream steps n run =>
      exact stream_gives resolvable hp ih leaves run
    | name run =>
      exact bare_gives resolvable hp leaves (fun _ ha => absurd ha List.not_mem_nil)
        (resolvable.name ..) run
    | @call x args args' mid n hargs run =>
      have later := (Leading.mapM (fun c _ => tree_leads c) hargs).scopes.over leaves
      have given : ∀ a ∈ (Test.call x args').children, P a := mapM_gives ih leaves hargs
      exact bare_gives resolvable hp later given (resolvable.call _ _ _ _ given) run
    | @methodDecl d body run =>
      obtain ⟨mid, _, _, hbody, -, -⟩ := yields_inScope.1 run
      exact resolvable.methodDecl _ _ (mapM_gives ih (leaves.cons (by nofun)) hbody)
    | localDecl run last =>
      exact resolvable.localDecl _ _ _ _ (ih _ (List.mem_singleton.2 rfl) leaves run)
    | script run => exact resolvable.script _ _ (mapM_gives ih leaves run)
    | @children kind kind' other run =>
      obtain ⟨run, label⟩ := runs.runs_children run
      have children := mapM_gives ih leaves run
      rw [← label] at other
      by_cases glues : kind'.glues = true
      · exact (resolvable.iff glues _ _).2 children
      · refine resolvable.operator ?_ _ _ children
        cases kind' <;> simp [Kind.label, Kind.glues] at other glues ⊢

omit resolvable hp in
/-- The subjects of the scopes that a script starts in are leaves. -/
theorem initialScopes_leaves (env : Environment) (root : Node) :
    (initialScopes env root).Over Node.IsLeaf := by
  intro scope hs ty origin heq
  subst heq
  simp only [initialScopes, List.cons_append, List.mem_cons, List.mem_append, Option.mem_toList,
    Option.map_eq_some_iff, List.not_mem_nil, or_false, reduceCtorEq, Scope.bound.injEq, and_false,
    exists_false, false_or] at hs
  exact ⟨_, hs.2, rfl, rfl⟩

end Resolve

end NavScript
