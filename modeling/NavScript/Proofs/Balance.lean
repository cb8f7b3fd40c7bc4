import NavScript.Proofs.Stages

/-!
# Balanced actions

A balanced action takes a fixed number of values off the stack and leaves a fixed number in their place.
What lies below does not matter to it, and of the locals only those matter that are no elements of
stages around it. An expression without declarations takes nothing and leaves one value (`takes_kind`).
-/

namespace NavScript

open Machine Lower

variable {W : World} {bound : List String} {f g : Action} {a b c : Nat}

/-- The same values for all names, where those of elements matter only if they are given. -/
def Agree (bound : List String) (locals locals' : List (String × Value)) : Prop :=
  ∀ x, (x ∈ bound ∨ ∀ n, x ≠ freshName "e" n) → locals.lookup x = locals'.lookup x

theorem Agree.refl (bound : List String) (locals : List (String × Value)) :
    Agree bound locals locals := fun _ _ => rfl

theorem Agree.bind {locals locals' : List (String × Value)} (h : Agree bound locals locals')
    (x : String) (v : Value) : Agree (x :: bound) ((x, v) :: locals) ((x, v) :: locals') := by
  intro y hy
  rw [List.lookup_cons, List.lookup_cons]
  cases hyx : y == x with
  | true => rfl
  | false =>
    refine h y (hy.imp_left fun hmem => ?_)
    rcases List.mem_cons.1 hmem with rfl | hmem
    · simp at hyx
    · exact hmem

/-- The action takes so many values and leaves so many, or it fails. -/
def Balanced (bound : List String) (f : Action) (takes leaves : Nat) : Prop :=
  ∀ locals locals' top, Agree bound locals locals' → top.length = takes →
    ∃ o : Attempt Access (List Value), (∀ left ∈ o, left.length = leaves) ∧
      Turns f locals top o id ∧ Turns f locals' top o id

namespace Balanced

theorem mono {bound' : List String} (h : Balanced bound f a b) (hb : ∀ x ∈ bound, x ∈ bound') :
    Balanced bound' f a b := fun locals locals' top agree =>
  h locals locals' top fun x hx => agree x (hx.imp_left (hb x))

/-- An action to which locals do not matter. -/
theorem ofTurns {α : Type} (h : ∀ top : List Value, top.length = a →
    ∃ (o : Attempt Access α) (left : α → List Value), (∀ r ∈ o, (left r).length = b) ∧
      ∀ locals, Turns f locals top o left) : Balanced bound f a b := by
  intro locals locals' top _ htop
  obtain ⟨o, left, hlen, turns⟩ := h top htop
  refine ⟨left <$> o, fun r hr => ?_, Turns.map_iff.2 (turns locals), Turns.map_iff.2 (turns locals')⟩
  obtain ⟨made, hmade, rfl⟩ := Attempt.mem_map.1 hr
  exact hlen made hmade

theorem fails (h : ∀ m, ∃ crash, f m = .error crash) : Balanced bound f a b :=
  .ofTurns fun _ _ => ⟨(.failed : Attempt Access Unit), fun _ => [],
    fun _ hr => absurd hr Attempt.not_mem_failed, fun _ _ _ => h _⟩

theorem bind (hf : Balanced bound f a b) (hg : Balanced bound g b c) :
    Balanced bound (fun m => f m >>= g) a c := by
  intro locals locals' top agree htop
  obtain ⟨o, hlen, first, first'⟩ := hf locals locals' top agree htop
  cases o with
  | failed =>
    have onward : (.failed : Attempt Access (List Value)) =
        (.failed : Attempt Access (List Value)) >>= fun left => pure left := rfl
    refine ⟨.failed, fun _ hr => absurd hr Attempt.not_mem_failed, ?_, ?_⟩
    · rw [onward]
      exact first.bind fun _ hr => absurd hr Attempt.not_mem_failed
    · rw [onward]
      exact first'.bind fun _ hr => absurd hr Attempt.not_mem_failed
  | done left log =>
    obtain ⟨o', hlen', next, next'⟩ := hg locals locals' left agree (hlen left (Attempt.mem_done.2 rfl))
    refine ⟨.done left log >>= fun _ => o', fun r hr => ?_, ?_, ?_⟩
    · obtain ⟨_, -, hr⟩ := Attempt.mem_bind.1 hr
      exact hlen' r hr
    · refine first.bind fun left' hr => ?_
      rw [Attempt.mem_done.1 hr]
      exact next
    · refine first'.bind fun left' hr => ?_
      rw [Attempt.mem_done.1 hr]
      exact next'

/-- More values below. -/
theorem frame (h : Balanced bound f a b) (d : Nat) : Balanced bound f (a + d) (b + d) := by
  intro locals locals' top agree htop
  have front : (top.take a).length = a := by
    rw [List.length_take, htop]
    omega
  have below : (top.drop a).length = d := by
    rw [List.length_drop, htop]
    omega
  obtain ⟨o, hlen, turns, turns'⟩ := h locals locals' (top.take a) agree front
  have framed {locals : List (String × Value)} (turns : Turns f locals (top.take a) o id) :
      Turns f locals top ((· ++ top.drop a) <$> o) id := by
    have turns := turns.frame (top.drop a)
    rw [List.take_append_drop] at turns
    exact Turns.map_iff.2 turns
  refine ⟨(· ++ top.drop a) <$> o, fun r hr => ?_, framed turns, framed turns'⟩
  obtain ⟨left, hleft, rfl⟩ := Attempt.mem_map.1 hr
  rw [List.length_append, hlen left hleft, below]

theorem push {v : Machine → Value} (u : Value) (hv : ∀ m, v m = u) :
    Balanced bound (fun m => .ok (m.push (v m))) 0 1 :=
  .ofTurns fun top htop => by
    rw [List.length_eq_zero_iff.1 htop]
    refine ⟨pure (), fun _ => [u], fun _ _ => rfl, fun locals => .ofPure fun stack log => ?_⟩
    rw [hv]
    rfl

theorem onTop (h : Value → Except Crash Value) : Balanced bound (Machine.onTop h) 1 1 :=
  .ofTurns fun top htop => by
    obtain ⟨v, rfl⟩ := List.length_eq_one_iff.1 htop
    cases hv : h v with
    | ok u => exact ⟨pure u, alone, fun _ _ => rfl, fun _ => turns_onTop hv⟩
    | error crash =>
      refine ⟨.failed, alone, fun _ _ => rfl, fun locals stack log => ⟨crash, ?_⟩⟩
      show (do return Machine.push (← h v) ⟨stack, locals, log⟩) = _
      rw [hv]
      rfl

theorem readTop (name : String) : Balanced bound (Machine.readTop W name) 1 1 :=
  .ofTurns fun top htop => by
    obtain ⟨v, rfl⟩ := List.length_eq_one_iff.1 htop
    exact ⟨W.reads v name, alone, fun _ _ => rfl, fun _ => turns_readTop v name⟩

theorem callTop (name : String) (arity : Nat) :
    Balanced bound (Machine.callTop W name arity) (arity + 1) 1 :=
  .ofTurns fun top htop => by
    obtain ⟨args, v, rfl⟩ : ∃ args v, top = args ++ [v] :=
      ⟨_, _, (List.dropLast_concat_getLast (by
        intro h
        rw [h] at htop
        cases htop)).symm⟩
    have hargs : args.length = arity := by
      rw [List.length_append] at htop
      exact Nat.succ.inj htop
    refine ⟨W.calls v name args.reverse, alone, fun _ _ => rfl, fun locals => ?_⟩
    have turns : Turns (Machine.callTop W name args.reverse.length) locals _ _ _ :=
      turns_callTop v name args.reverse
    rw [List.length_reverse, hargs, List.reverse_reverse] at turns
    exact turns

theorem operateTop (h : Value → Value → Option Value) : Balanced bound (Machine.operateTop h) 2 1 :=
  .ofTurns fun top htop => by
    obtain ⟨r, l, rfl⟩ := List.length_eq_two.1 htop
    cases hv : h l r with
    | some v =>
      refine ⟨pure v, alone, fun _ _ => rfl, fun locals => .ofPure fun stack log => ?_⟩
      exact operateTop_some hv
    | none =>
      refine ⟨.failed, alone, fun _ _ => rfl, fun locals stack log => ⟨.noResult, ?_⟩⟩
      exact operateTop_none hv

theorem collectTop (r : Reduction) : Balanced bound (Machine.collectTop r) 1 1 :=
  .ofTurns fun top htop => by
    obtain ⟨v, rfl⟩ := List.length_eq_one_iff.1 htop
    cases v with
    | seq items => exact ⟨_, alone, fun _ _ => rfl, fun _ => turns_collectTop r items⟩
    | lit | object | list | type =>
      exact ⟨.failed, alone, fun _ _ => rfl, fun _ _ _ => ⟨.notSequence, rfl⟩⟩

theorem branch {yes no : Action} (hyes : Balanced bound yes a b) (hno : Balanced bound no a b) :
    Balanced bound (Machine.branch yes no) (a + 1) b := by
  intro locals locals' top agree htop
  cases top with
  | nil => cases htop
  | cons v rest =>
    have hrest : rest.length = a := Nat.succ.inj htop
    cases hv : v.bool? with
    | none =>
      have crash (locals : List (String × Value)) :
          Turns (Machine.branch yes no) locals (v :: rest) (.failed : Attempt Access (List Value)) id := by
        intro stack log
        refine ⟨.notBoolean, ?_⟩
        exact branch_none hv
      exact ⟨.failed, fun _ hr => absurd hr Attempt.not_mem_failed, crash locals, crash locals'⟩
    | some verdict =>
      rw [Value.eq_ofBool hv]
      cases verdict with
      | true =>
        obtain ⟨o, hlen, turns, turns'⟩ := hyes locals locals' rest agree hrest
        exact ⟨o, hlen, turns_branch turns, turns_branch turns'⟩
      | false =>
        obtain ⟨o, hlen, turns, turns'⟩ := hno locals locals' rest agree hrest
        exact ⟨o, hlen, turns_branch turns, turns_branch turns'⟩

theorem bindTop {x : String} {body : Action} (h : Balanced (x :: bound) body a b) :
    Balanced bound (Machine.bindTop x body) (a + 1) b := by
  intro locals locals' top agree htop
  cases top with
  | nil => cases htop
  | cons v rest =>
    obtain ⟨o, hlen, turns, turns'⟩ :=
      h ((x, v) :: locals) ((x, v) :: locals') rest (agree.bind x v) (Nat.succ.inj htop)
    exact ⟨o, hlen, turns_bindTop turns, turns_bindTop turns'⟩

theorem localRef {x : String} {ty : Option Ty} (hx : x ∈ bound ∨ ∀ n, x ≠ freshName "e" n) :
    Balanced bound (execKind W ty (.localRef x)) 0 1 := by
  intro locals locals' top agree htop
  rw [List.length_eq_zero_iff.1 htop]
  have here := agree x hx
  cases hl : locals.lookup x with
  | some v =>
    have turns {locals : List (String × Value)} (hl : locals.lookup x = some v) :
        Turns (execKind W ty (.localRef x)) locals [] (pure [v] : Attempt Access (List Value)) id := by
      exact .ofPure fun stack log => execKind_localRef_some hl
    exact ⟨pure [v], fun r hr => by rw [Attempt.mem_pure.1 hr]; rfl, turns hl,
      turns (here.symm.trans hl)⟩
  | none =>
    have turns {locals : List (String × Value)} (hl : locals.lookup x = none) :
        Turns (execKind W ty (.localRef x)) locals [] (.failed : Attempt Access (List Value)) id := by
      exact fun stack log => ⟨.unbound, execKind_localRef_none hl⟩
    exact ⟨.failed, fun _ hr => absurd hr Attempt.not_mem_failed, turns hl,
      turns (here.symm.trans hl)⟩

/-- What an action that leaves one value has as its attempt. -/
theorem one (h : Balanced bound f a 1) {locals locals' : List (String × Value)} {top : List Value}
    (agree : Agree bound locals locals') (htop : top.length = a) :
    ∃ o : Attempt Access Value, Turns f locals top o alone ∧ Turns f locals' top o alone := by
  obtain ⟨o, hlen, turns, turns'⟩ := h locals locals' top agree htop
  cases o with
  | failed => exact ⟨.failed, turns, turns'⟩
  | done left log =>
    obtain ⟨v, rfl⟩ := List.length_eq_one_iff.1 (hlen left (Attempt.mem_done.2 rfl))
    exact ⟨.done v log, turns, turns'⟩

theorem ends_stage {op : StageKind} {x : String} {body : Action} {item : Value}
    {locals : List (String × Value)} {o : Attempt Access Value}
    (h : Turns body ((x, item) :: locals) [] o alone) (stack out : List Value) (log : List Access) :
    Ends (o >>= fun u =>
        match staged op item u with
        | .ok new => pure new
        | .error _ => .failed)
      (fun new log' => (out ++ new, (⟨stack, locals, log'⟩ : Machine))) log
      (stage op x body (out, ⟨stack, locals, log⟩) item) := by
  refine (ends_single h).bind fun u _ log' => ?_
  show Ends _ _ _ (do return (out ++ (← staged op item u), _))
  cases staged op item u with
  | error crash => exact ⟨crash, rfl⟩
  | ok new => exact .ofPure rfl

theorem ends_stages (op : StageKind) {x : String} {body : Action}
    (h : Balanced (x :: bound) body 0 1) (items : List Value) {locals locals' : List (String × Value)}
    (agree : Agree bound locals locals') :
    ∃ o : Attempt Access (List Value), ∀ known, known = locals ∨ known = locals' →
      ∀ (stack out : List Value) (log : List Access),
        Ends o (fun new log' => (out ++ new, (⟨stack, known, log'⟩ : Machine))) log
          (items.foldlM (stage op x body) (out, ⟨stack, known, log⟩)) := by
  induction items with
  | nil =>
    refine ⟨pure [], fun known _ stack out log => .ofPure ?_⟩
    rw [List.append_nil]
    rfl
  | cons item rest ih =>
    obtain ⟨o, turns, turns'⟩ :=
      h.one (agree.bind x item) (show ([] : List Value).length = 0 from rfl)
    obtain ⟨others, hothers⟩ := ih
    refine ⟨(o >>= fun u =>
        match staged op item u with
        | .ok new => pure new
        | .error _ => .failed) >>= fun new => (new ++ ·) <$> others,
      fun known hknown stack out log => ?_⟩
    have first : Turns body ((x, item) :: known) [] o alone := by
      rcases hknown with rfl | rfl
      · exact turns
      · exact turns'
    rw [List.foldlM_cons]
    refine (ends_stage first stack out log).bind fun new _ mid => Ends.map_iff.2 ?_
    have rest := hothers known hknown stack (out ++ new) mid
    simp only [← List.append_assoc]
    exact rest

theorem pipeTop {op : StageKind} {x : String} {body : Action} (h : Balanced (x :: bound) body 0 1) :
    Balanced bound (Machine.pipeTop op x body) 1 1 := by
  intro locals locals' top agree htop
  obtain ⟨v, rfl⟩ := List.length_eq_one_iff.1 htop
  cases v with
  | seq items =>
    obtain ⟨o, ends⟩ := ends_stages op h items agree
    have turns (known : List (String × Value)) (hknown : known = locals ∨ known = locals') :
        Turns (Machine.pipeTop op x body) known [.seq items] ((fun new => [.seq new]) <$> o) id := by
      refine Turns.map_iff.2 fun stack log => ?_
      have run : Machine.pipeTop op x body ⟨[.seq items] ++ stack, known, log⟩ =
          items.foldlM (stage op x body) ([], ⟨stack, known, log⟩) >>= fun made =>
            .ok (made.2.push (.seq made.1)) := rfl
      rw [run, ← bind_pure o]
      exact (ends known hknown stack [] log).bind fun new _ log' => .ofPure rfl
    refine ⟨_, fun r hr => ?_, turns locals (.inl rfl), turns locals' (.inr rfl)⟩
    obtain ⟨new, -, rfl⟩ := Attempt.mem_map.1 hr
    rfl
  | lit | object | list | type =>
    exact ⟨.failed, fun _ hr => absurd hr Attempt.not_mem_failed, fun _ _ => ⟨.notSequence, rfl⟩,
      fun _ _ => ⟨.notSequence, rfl⟩⟩

theorem runAll_nil : Balanced bound (runAll []) a a :=
  .ofTurns fun top htop => ⟨pure (), fun _ => top, fun _ _ => htop, fun _ => .ofPure fun _ _ => rfl⟩

theorem runAll_cons {fs : List Action} (hf : Balanced bound f a b)
    (hfs : Balanced bound (runAll fs) b c) : Balanced bound (runAll (f :: fs)) a c :=
  hf.bind hfs

theorem dup : Balanced bound (stackOp .dup) 1 2 :=
  .ofTurns fun top htop => by
    obtain ⟨v, rfl⟩ := List.length_eq_one_iff.1 htop
    exact ⟨pure (), fun _ => [v, v], fun _ _ => rfl, fun _ => turns_dup v⟩

theorem pop : Balanced bound (stackOp .pop) 1 0 :=
  .ofTurns fun top htop => by
    obtain ⟨v, rfl⟩ := List.length_eq_one_iff.1 htop
    exact ⟨pure (), fun _ => [], fun _ _ => rfl, fun _ => turns_pop v⟩

end Balanced

/-- In every world the node takes so many values and leaves one. -/
def Node.Takes (bound : List String) (n : Node) (takes : Nat) : Prop :=
  ∀ W, Balanced bound (exec W n) takes 1

section

variable {n l r : Node} {span : Span} {ty : Option Ty}

theorem takes_mk {kind : Kind Node} : Node.Takes bound ⟨span, ty, kind⟩ a ↔
    ∀ W, Balanced bound (execKind W ty (kind.map fun c => (c, exec W c))) a 1 :=
  forall_congr' fun W => by rw [exec_mk]

theorem Node.Takes.mono {bound' : List String} (h : n.Takes bound a)
    (hb : ∀ x ∈ bound, x ∈ bound') : n.Takes bound' a := fun W => (h W).mono hb

theorem takes_literal (lit : Literal) : Node.Takes bound ⟨span, ty, .literal lit⟩ 0 :=
  takes_mk.2 fun _ => .push _ fun _ => rfl

theorem takes_stacked : Node.Takes bound ⟨span, ty, .stacked⟩ 1 :=
  takes_mk.2 fun W => .ofTurns fun top htop => by
    obtain ⟨v, rfl⟩ := List.length_eq_one_iff.1 htop
    exact ⟨pure v, alone, fun _ _ => rfl, fun _ => .ofPure fun _ _ => rfl⟩

theorem takes_propertyRead (h : n.Takes bound a) (name : String) :
    Node.Takes bound ⟨span, ty, .propertyRead n name⟩ a :=
  takes_mk.2 fun W => (h W).bind (.readTop name)

theorem balanced_arguments {args : List Node} (h : ∀ arg ∈ args, arg.Takes bound 0) (d : Nat) :
    Balanced bound (runAll (args.map (exec W))) d (args.length + d) := by
  induction args generalizing d with
  | nil =>
    rw [List.length_nil, Nat.zero_add]
    exact .runAll_nil
  | cons arg rest ih =>
    have first := (h arg (List.mem_cons_self ..) W).frame d
    rw [Nat.zero_add] at first
    have others := ih (fun c hc => h c (List.mem_cons_of_mem _ hc)) (1 + d)
    rw [show (arg :: rest).length + d = rest.length + (1 + d) by rw [List.length_cons]; omega]
    exact .runAll_cons first others

theorem takes_methodCall (h : n.Takes bound a) {args : List Node}
    (hargs : ∀ arg ∈ args, arg.Takes bound 0) (owner : Ty) (name : String) :
    Node.Takes bound ⟨span, ty, .methodCall n owner name args⟩ a := by
  refine takes_mk.2 fun W => ?_
  rw [execKind_methodCall]
  exact (h W).bind ((balanced_arguments hargs 1).bind (.callTop name args.length))

theorem takes_operands (hl : l.Takes bound 0) (hr : r.Takes bound 0)
    (f : Value → Value → Option Value) :
    Balanced bound (fun m => exec W l m >>= exec W r >>= operateTop f) 0 1 := by
  have run (m : Machine) : exec W l m >>= exec W r >>= operateTop f =
      exec W l m >>= fun m => exec W r m >>= operateTop f := bind_assoc ..
  rw [funext run]
  exact (hl W).bind (((hr W).frame 1).bind (.operateTop f))

theorem takes_binary (op : Operator) (hl : l.Takes bound 0) (hr : r.Takes bound 0) :
    Node.Takes bound ⟨span, ty, .binary op l r⟩ 0 := by
  refine takes_mk.2 fun W => ?_
  cases op
  case and => exact (hl W).bind ((hr W).branch (.push _ fun _ => rfl))
  case or => exact (hl W).bind (.branch (.push _ fun _ => rfl) (hr W))
  all_goals exact takes_operands hl hr _

theorem takes_conditional {cond yes no : Node} (hc : cond.Takes bound a) (hyes : yes.Takes bound b)
    (hno : no.Takes bound b) : Node.Takes bound ⟨span, ty, .conditional cond yes no⟩ (a + b) :=
  takes_mk.2 fun W => by
    have first := (hc W).frame b
    rw [Nat.add_comm 1 b] at first
    exact first.bind ((hyes W).branch (hno W))

theorem takes_convert (h : n.Takes bound a) (conversion : Conversion) :
    Node.Takes bound ⟨span, ty, .convert conversion n⟩ a :=
  takes_mk.2 fun W => (h W).bind (.onTop _)

theorem takes_toSequence (h : n.Takes bound a) : Node.Takes bound ⟨span, ty, .toSequence n⟩ a :=
  takes_mk.2 fun W => (h W).bind (.onTop _)

theorem takes_isNull (h : n.Takes bound a) : Node.Takes bound ⟨span, ty, .isNull n⟩ a :=
  takes_mk.2 fun W => (h W).bind (.onTop _)

theorem takes_collect (h : n.Takes bound a) (r : Reduction) :
    Node.Takes bound ⟨span, ty, .collect n r⟩ a :=
  takes_mk.2 fun W => (h W).bind (.collectTop r)

theorem takes_pipe {x : String} {body : Node} (h : n.Takes bound a)
    (hbody : body.Takes (x :: bound) 0) (op : StageKind) :
    Node.Takes bound ⟨span, ty, .pipe op n x body⟩ a :=
  takes_mk.2 fun W => (h W).bind (.pipeTop (hbody W))

theorem takes_letIn {x : String} {body : Node} (h : n.Takes bound a)
    (hbody : body.Takes (x :: bound) 0) : Node.Takes bound ⟨span, ty, .letIn x n body⟩ a :=
  takes_mk.2 fun W => (h W).bind (.bindTop (hbody W))

/-- Nodes that declare nothing and do not touch the stack themselves. -/
theorem takes_kind {kind : Kind Node}
    (hkind : kind.label ∉ ["Script", "LocalDecl", "LocalRef", "Stacked", "Sequence", "Instr"])
    (h : ∀ c ∈ kind.children, c.Takes bound 0) : Node.Takes bound ⟨span, ty, kind⟩ 0 := by
  cases kind
  case script | localDecl | localRef | stacked | sequence | stackOp => simp [Kind.label] at hkind
  case literal lit => exact takes_literal lit
  case name | call | stream | methodDecl => exact takes_mk.2 fun W => .fails fun _ => ⟨_, rfl⟩
  case this => exact takes_mk.2 fun W => .push W.this fun _ => rfl
  case typeRef t => exact takes_mk.2 fun W => .push (.type t.render) fun _ => rfl
  case binary op l r => exact takes_binary op (h l (by simp [Kind.children])) (h r (by simp [Kind.children]))
  case operatorCall owner method l r =>
    exact takes_mk.2 fun W =>
      takes_operands (h l (by simp [Kind.children])) (h r (by simp [Kind.children])) _
  case conditional c t e =>
    exact takes_conditional (h c (by simp [Kind.children])) (h t (by simp [Kind.children]))
      (h e (by simp [Kind.children]))
  case propertyRead t name => exact takes_propertyRead (h t (by simp [Kind.children])) name
  case methodCall t owner name args =>
    exact takes_methodCall (h t (by simp [Kind.children]))
      (fun arg harg => h arg (by simp [Kind.children, harg])) owner name
  case convert c e => exact takes_convert (h e (by simp [Kind.children])) c
  case toSequence e => exact takes_toSequence (h e (by simp [Kind.children]))
  case isNull e => exact takes_isNull (h e (by simp [Kind.children]))
  case collect e r => exact takes_collect (h e (by simp [Kind.children])) r
  case pipe op e x body =>
    exact takes_pipe (h e (by simp [Kind.children]))
      ((h body (by simp [Kind.children])).mono fun _ hy => List.mem_cons_of_mem _ hy) op
  case letIn x value body =>
    exact takes_letIn (h value (by simp [Kind.children]))
      ((h body (by simp [Kind.children])).mono fun _ hy => List.mem_cons_of_mem _ hy)

end

end NavScript
