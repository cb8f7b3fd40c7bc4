import NavScript.Proofs.Balance
import NavScript.Proofs.Meaning
import NavScript.Proofs.Views

/-!
# Resolved expressions are closed

An expression as it is written takes nothing off the stack and leaves one value when it is resolved
(`tree_takes`), whatever is found for its names and whatever its navigations are lowered to. So it can
be an argument or a condition of a navigation around it (`Node.Takes.closed`), and the elements of the
stages around it do not matter to it.
-/

namespace NavScript

open Machine Lower

variable {W : World} {bound : List String} {b : Bool} {a : Nat} {n : Node} {span : Span}
  {ty : Option Ty}

/-- A node that takes nothing gives what it evaluates to, also where elements are bound around it. -/
theorem Node.Takes.closed (h : n.Takes [] 0) (locals : List (String × Value)) :
    Closed W locals n ∧
      ∀ i v, Gives W ((freshName "e" i, v) :: locals) n [] (W.evaluate locals n) := by
  have gives (locals' : List (String × Value)) (agree : Agree [] locals locals') :
      Gives W locals n [] (W.evaluate locals n) ∧ Gives W locals' n [] (W.evaluate locals n) := by
    obtain ⟨o, turns, turns'⟩ := (h W).one agree (show ([] : List Value).length = 0 from rfl)
    have value : W.evaluate locals n = o := Gives.evaluate turns
    rw [value]
    exact ⟨turns, turns'⟩
  refine ⟨(gives locals (.refl _ _)).1, fun i v => (gives _ fun x hx => ?_).2⟩
  rcases hx with hx | hx
  · cases hx
  · rw [List.lookup_cons]
    have other : (x == freshName "e" i) = false := by
      rw [beq_eq_false_iff_ne]
      exact hx i
    rw [other]

theorem takes_sequence {items : List Node}
    (h : ∀ W, Balanced bound (runAll (items.map (exec W))) a 1) :
    Node.Takes bound ⟨span, ty, .sequence items⟩ a := by
  intro W
  have run : exec W ⟨span, ty, .sequence items⟩ = runAll (items.map (exec W)) := exec_sequence items
  rw [run]
  exact h W

theorem takes_pair {body : Node} (h : n.Takes bound a) (hbody : body.Takes bound 1) :
    Node.Takes bound ⟨span, ty, .sequence [n, body]⟩ a :=
  takes_sequence fun W => .runAll_cons (h W) (.runAll_cons (hbody W) .runAll_nil)

theorem takes_guarded {resultTy stackedTy : Ty} {body : Node} (h : n.Takes bound a)
    (hbody : body.Takes bound 1) : (guarded span resultTy n stackedTy body).Takes bound a := by
  unfold guarded
  refine takes_sequence fun W => ?_
  have stop : Node.Takes bound
      { ty := some resultTy, kind := .sequence [.ofStackOp .pop, .nullOf resultTy] } 1 := by
    refine takes_sequence fun W => .runAll_cons (b := 0) ?_ (.runAll_cons ?_ .runAll_nil)
    · show Balanced bound (exec W ⟨_, _, .stackOp .pop⟩) 1 0
      rw [exec_mk]
      exact .pop
    · exact takes_literal .null W
  have dup : Balanced bound (exec W (.ofStackOp .dup)) 1 2 := by
    rw [Node.ofStackOp, exec_mk]
    exact .dup
  exact .runAll_cons (h W) (.runAll_cons dup
    (.runAll_cons (takes_conditional (takes_isNull takes_stacked) stop hbody W) .runAll_nil))

theorem takes_boxedAs {t : Ty} (h : n.Takes bound a) : (boxedAs t n).Takes bound a := by
  unfold boxedAs
  split
  · exact takes_convert h .box
  · exact h

theorem takes_handed {subjectTy bodyTy : Ty} {body : Node} (h : n.Takes bound a)
    (hbody : body.Takes bound 1) : (handed b subjectTy bodyTy n body).Takes bound a := by
  unfold handed
  split
  · split
    · exact takes_guarded (takes_convert h .box)
        (takes_pair (takes_convert takes_stacked .unbox) (takes_boxedAs hbody))
    · exact takes_pair h hbody
  · exact takes_guarded h (takes_boxedAs hbody)

theorem takes_guardLinks {rest : List Node} {made : Node} (h : n.Takes bound a)
    (hrest : ∀ c ∈ rest, c.Takes bound 1) (hmade : guardLinks b (n :: rest) = .ok made) :
    made.Takes bound a := by
  induction rest generalizing n a made with
  | nil =>
    cases hmade
    exact h
  | cons next rest ih =>
    obtain ⟨body, hbody, hlink⟩ := guardLinks_cons.1 hmade
    obtain ⟨subjectTy, bodyTy, -, -, rfl⟩ := guardLink_ok.1 hlink
    exact takes_handed h (ih (hrest next (List.mem_cons_self ..))
      (fun c hc => hrest c (List.mem_cons_of_mem _ hc)) hbody)

/-- What reads `this` in the place of the value on the stack takes one value less. -/
theorem takes_placed {n value n' : Node} {s' : Option Node} (h : n.Takes [] 1)
    (first : ReceiverFirst n) (hvalue : value.isThis = true)
    (hplaced : placing.rel (placeStacked n) (some value) n' s') : n'.Takes [] 0 := by
  intro W
  have hfrom : FromThis W n' n := (first.placed hplaced).1.fromThis hvalue
  have run : exec W n' = fun m => .ok (m.push W.this) >>= exec W n := by
    funext m
    exact hfrom m
  rw [run]
  exact (Balanced.push W.this fun _ => rfl).bind (h W)

/-- A chain takes what its first link takes. Only a chain that takes nothing starts at `this`. -/
structure TakesChain (a : Nat) (chain : List Node) : Prop where
  nonempty : chain ≠ []
  first : ∀ n ∈ chain.head?, n.Takes [] a ∧ (n.isThis = true → a = 0)
  rest : ∀ n ∈ chain.tail, n.Takes [] 1 ∧ ReceiverFirst n

theorem TakesChain.single (h : n.Takes [] a) (hn : n.isThis = true → a = 0) : TakesChain a [n] := by
  refine ⟨List.cons_ne_nil _ _, fun c hc => ?_, fun c hc => absurd hc List.not_mem_nil⟩
  cases hc
  exact ⟨h, hn⟩

theorem TakesChain.snoc {chain : List Node} (h : TakesChain a chain) (hn : n.Takes [] 1)
    (first : ReceiverFirst n) : TakesChain a (chain ++ [n]) := by
  obtain ⟨nonempty, head, rest⟩ := h
  cases chain with
  | nil => exact absurd rfl nonempty
  | cons c others =>
    refine ⟨List.cons_ne_nil _ _, head, fun c hc => ?_⟩
    rcases List.mem_append.1 hc with hc | hc
    · exact rest c hc
    · rw [List.mem_singleton.1 hc]
      exact ⟨hn, first⟩

theorem takes_close {chain : List Node} {made : Node} (h : TakesChain a chain)
    (hmade : close b chain = .ok made) : made.Takes [] a := by
  obtain ⟨nonempty, head, rest⟩ := h
  cases chain with
  | nil => exact absurd rfl nonempty
  | cons c others =>
    obtain ⟨hc, hthis⟩ := head c rfl
    cases hcase : c.isThis with
    | false =>
      rw [close_other hcase] at hmade
      exact takes_guardLinks hc (fun d hd => (rest d hd).1) hmade
    | true =>
      cases others with
      | nil =>
        cases hmade
        exact hc
      | cons next others =>
        rw [hthis hcase]
        obtain ⟨hnext, first⟩ := rest next (List.mem_cons_self ..)
        have placing : placing.rel (placeStacked next) (some c) ((placeStacked next).run (some c)).1
          ((placeStacked next).run (some c)).2 := rfl
        have placed := takes_placed hnext first hcase placing
        have hmade : guardLinks b (((placeStacked next).run (some c)).1 :: others) = .ok made := by
          unfold close readThis at hmade
          simp only [hcase, if_true] at hmade
          exact hmade
        exact takes_guardLinks placed (fun d hd => (rest d (List.mem_cons_of_mem _ hd)).1) hmade

/-- Steps take the value on the stack, and conditions take nothing. -/
def Link.Takes : Link → Prop
  | step expr _ => expr.Takes [] 1 ∧ ReceiverFirst expr
  | predicate _ cond _ => cond.Takes [] 0
  | reduce _ _ => True

theorem takes_local {x : String} {t : Ty} : (Node.localOf x t).Takes (x :: bound) 0 :=
  takes_mk.2 fun _ => .localRef (.inl (List.mem_cons_self ..))

theorem takes_keepIf {x : String} {cond : Node} {t : Ty} (h : cond.Takes [] 0) :
    (keepIf x cond t).Takes [] 1 := by
  have cond' : cond.Takes [x] 0 := h.mono fun _ hy => absurd hy List.not_mem_nil
  unfold keepIf
  refine takes_letIn takes_stacked (takes_conditional cond' ?_ (takes_literal .null))
  split
  · exact takes_convert takes_local .box
  · exact takes_local

theorem takes_nullSafe {x : String} {cond : Node} {elem : Ty} (h : cond.Takes [] 0) :
    (nullSafe x cond elem).Takes [x] 0 := by
  have cond' : cond.Takes [x] 0 := h.mono fun _ hy => absurd hy List.not_mem_nil
  unfold nullSafe
  split
  · exact cond'
  · exact takes_conditional (takes_isNull takes_local) (takes_literal _) cond'

theorem takes_stage {source next : Source} {run : List Node} {flatten : Bool} {i m : Nat}
    (hstage : Makes (stage b source run flatten) i next m) (h : source.node.Takes [] a)
    (hrun : ∀ c ∈ run, c.Takes [] 1) : next.node.Takes [] a := by
  obtain ⟨body, bodyTy, hbody, -, -, hnext⟩ := makes_stage.1 hstage
  have hbody : body.Takes [freshName "e" i] 0 :=
    takes_guardLinks takes_local
      (fun c hc => (hrun c hc).mono fun _ hy => absurd hy List.not_mem_nil) hbody
  split at hnext
  · obtain ⟨inner, -, rfl⟩ := hnext
    exact takes_pipe h (takes_toSequence hbody) .flatMap
  · rw [hnext]
    exact takes_pipe h hbody .map

theorem takes_flush {source next : Source} {run : List Node} {i m : Nat}
    (hflush : Makes (flush b source run) i next m) (h : source.node.Takes [] a)
    (hrun : ∀ c ∈ run, c.Takes [] 1) : next.node.Takes [] a := by
  rcases makes_flush.1 hflush with ⟨-, rfl, -⟩ | ⟨-, hstage⟩
  · exact h
  · exact takes_stage hstage h hrun

theorem takes_sourceOf (multi elem : Ty) : (stackedSequence multi elem).Takes [] 1 :=
  takes_toSequence takes_stacked

theorem mem_snoc {run : List Node} (hrun : ∀ c ∈ run, c.Takes [] 1) (hn : n.Takes [] 1) :
    ∀ c ∈ run ++ [n], c.Takes [] 1 := by
  intro c hc
  rcases List.mem_append.1 hc with hc | hc
  · exact hrun c hc
  · rw [List.mem_singleton.1 hc]
    exact hn

mutual

theorem takes_scalar : ∀ (links : List Link) {a : Nat} {chain : List Node} {i m : Nat} {made : Node},
    Makes (scalar b chain links) i made m → (∀ link ∈ links, link.Takes) → TakesChain a chain →
      made.Takes [] a
  | [], _, _, _, _, _, hmade, _, h => takes_close h (makes_scalar_nil.1 hmade).1
  | .step expr ty :: rest, _, _, _, _, _, hmade, hlinks, h => by
    have hstep := hlinks _ (List.mem_cons_self ..)
    have hrest := fun l hl => hlinks l (List.mem_cons_of_mem _ hl)
    have chain := h.snoc hstep.1 hstep.2
    rw [makes_scalar_step] at hmade
    split at hmade
    · obtain ⟨elem, tail, -, htail, hclose⟩ := hmade
      have tailTakes := takes_stream rest htail hrest (takes_sourceOf ty elem)
        fun c hc => absurd hc List.not_mem_nil
      have opening := stream_opening rest htail (opening_stacked ty elem)
      have longer := chain.snoc tailTakes opening.first
      rw [List.append_assoc] at longer
      exact takes_close longer hclose
    · exact takes_scalar rest hmade hrest chain
  | .predicate x cond ty :: rest, _, _, _, _, _, hmade, hlinks, h => by
    have hcond := hlinks _ (List.mem_cons_self ..)
    exact takes_scalar rest (makes_scalar_predicate.1 hmade)
      (fun l hl => hlinks l (List.mem_cons_of_mem _ hl))
      (h.snoc (takes_keepIf hcond) ((ReceiverFirst.stacked _ _).letIn ..))
  | .reduce r ty :: rest, _, _, _, _, _, hmade, hlinks, h => by
    obtain ⟨multi, elem, tail, -, -, htail, hclose⟩ := makes_scalar_reduce.1 hmade
    have tailTakes := takes_scalar rest htail (fun l hl => hlinks l (List.mem_cons_of_mem _ hl))
      (.single (takes_collect (takes_sourceOf multi elem) r) nofun)
    have opening := scalar_opening rest htail
      ⟨List.cons_ne_nil _ _, opening_collect (opening_stacked multi elem) r⟩
    exact takes_close (h.snoc tailTakes opening.first) hclose

theorem takes_stream : ∀ (links : List Link) {source : Source} {run : List Node} {i m : Nat}
    {made : Node}, Makes (stream b source run links) i made m → (∀ link ∈ links, link.Takes) →
      source.node.Takes [] 1 → (∀ c ∈ run, c.Takes [] 1) → made.Takes [] 1
  | [], _, _, _, _, _, hmade, _, h, hrun => by
    obtain ⟨last, hflush, rfl⟩ := makes_stream_nil.1 hmade
    exact takes_flush hflush h hrun
  | .step expr ty :: rest, _, _, _, _, _, hmade, hlinks, h, hrun => by
    have hstep := hlinks _ (List.mem_cons_self ..)
    have hrest := fun l hl => hlinks l (List.mem_cons_of_mem _ hl)
    have longer := mem_snoc hrun hstep.1
    rw [makes_stream_step] at hmade
    split at hmade
    · obtain ⟨_, _, hstage, hmade⟩ := hmade
      exact takes_stream rest hmade hrest (takes_stage hstage h longer)
        fun c hc => absurd hc List.not_mem_nil
    · exact takes_stream rest hmade hrest h longer
  | .predicate x cond ty :: rest, _, _, _, _, _, hmade, hlinks, h, hrun => by
    have hcond := hlinks _ (List.mem_cons_self ..)
    obtain ⟨next, _, hflush, hmade⟩ := makes_stream_predicate.1 hmade
    exact takes_stream rest hmade (fun l hl => hlinks l (List.mem_cons_of_mem _ hl))
      (takes_pipe (takes_flush hflush h hrun) (takes_nullSafe hcond) .filter)
      fun c hc => absurd hc List.not_mem_nil
  | .reduce r ty :: rest, _, _, _, _, _, hmade, hlinks, h, hrun => by
    obtain ⟨next, _, hflush, hmade⟩ := makes_stream_reduce.1 hmade
    exact takes_scalar rest hmade (fun l hl => hlinks l (List.mem_cons_of_mem _ hl))
      (.single (takes_collect (takes_flush hflush h hrun) r) nofun)

end

/-- From the head, which takes nothing. -/
theorem takes_lowered {expr made : Node} {t : Ty} {rest : List Link} {i m : Nat}
    (hmade : Makes (scalar b [] (.step expr t :: rest)) i made m) (h : expr.Takes [] 0)
    (hlinks : ∀ link ∈ rest, link.Takes) : made.Takes [] 0 := by
  have chain : TakesChain 0 [expr] := .single h fun _ => rfl
  rw [makes_scalar_step] at hmade
  split at hmade
  · obtain ⟨elem, tail, -, htail, hclose⟩ := hmade
    have tailTakes := takes_stream rest htail hlinks (takes_sourceOf t elem)
      fun c hc => absurd hc List.not_mem_nil
    exact takes_close (chain.snoc tailTakes (stream_opening rest htail (opening_stacked t elem)).first)
      hclose
  · exact takes_scalar rest hmade hlinks chain

end NavScript
