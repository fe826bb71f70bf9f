/-! Brackets that open and close in turn. -/

namespace SplitEditor.Brackets

def closing? : Char → Option Char
  | '(' => some ')'
  | '[' => some ']'
  | '\x7b' => some '\x7d'
  | _ => none

def turn (stack : List Char) (c : Char) : Option (List Char) :=
  match closing? c with
  | some d => some (d :: stack)
  | none =>
    match stack with
    | d :: stack => if c = d then some stack else none
    | [] => none

def unclosed (cs : List Char) : Option (List Char) := cs.foldlM turn []

def Balanced (cs : List Char) : Prop := unclosed cs = some []

/-- All brackets are closed, each by its own, and the outermost by the last of all. -/
structure Enclosed (cs : List Char) : Prop where
  balanced : Balanced cs
  outermost : ∀ before after, cs = before ++ after → before ≠ [] → after ≠ [] →
    ∃ d stack, unclosed before = some (d :: stack)

variable {stack left cs cs' : List Char} {c : Char}

theorem turn_append (h : turn stack c = some left) (below : List Char) :
    turn (stack ++ below) c = some (left ++ below) := by
  unfold turn at h ⊢
  cases hclosing : closing? c with
  | some d =>
    rw [hclosing] at h
    obtain rfl := Option.some.inj h
    rfl
  | none =>
    rw [hclosing] at h
    cases stack with
    | nil => cases h
    | cons d stack =>
      simp only [List.cons_append, Option.ite_none_right_eq_some] at h ⊢
      exact ⟨h.1, congrArg some (Option.some.inj h.2 ▸ rfl)⟩

theorem foldlM_turn_append (h : cs.foldlM turn stack = some left) (below : List Char) :
    cs.foldlM turn (stack ++ below) = some (left ++ below) := by
  induction cs generalizing stack with
  | nil =>
    obtain rfl := Option.some.inj h
    rfl
  | cons c cs ih =>
    obtain ⟨next, hturn, h⟩ := Option.bind_eq_some_iff.1 h
    rw [List.foldlM_cons, turn_append hturn]
    exact ih h

theorem balanced_nil : Balanced [] := rfl

theorem Balanced.append (h : Balanced cs) (h' : Balanced cs') : Balanced (cs ++ cs') := by
  rw [Balanced, unclosed] at h h' ⊢
  rw [List.foldlM_append, h]
  exact h'

theorem balanced_flatMap {α : Type} {f : α → List Char} {l : List α}
    (h : ∀ a ∈ l, Balanced (f a)) : Balanced (l.flatMap f) := by
  induction l with
  | nil => exact balanced_nil
  | cons a l ih =>
    obtain ⟨ha, hl⟩ := List.forall_mem_cons.1 h
    rw [List.flatMap_cons]
    exact ha.append (ih hl)

theorem Balanced.enclosed (h : Balanced cs) : Enclosed ('(' :: (cs ++ [')'])) := by
  have hcons (cs : List Char) : unclosed ('(' :: cs) = cs.foldlM turn [')'] := rfl
  constructor
  case balanced =>
    have hcs : cs.foldlM turn [')'] = some [')'] := foldlM_turn_append h [')']
    rw [Balanced, hcons, List.foldlM_append, hcs]
    rfl
  case outermost =>
    intro before after hsplit hbefore hafter
    obtain ⟨c, before, rfl⟩ := List.exists_cons_of_ne_nil hbefore
    obtain rfl : '(' = c := (List.cons.inj hsplit).1
    have hinner : cs ++ [')'] = before ++ after := (List.cons.inj hsplit).2
    -- the last bracket is among those behind
    have hle : before.length ≤ cs.length := by
      have hlength := congrArg List.length hinner
      have hpos := List.length_pos_iff.2 hafter
      rw [List.length_append, List.length_append, List.length_singleton] at hlength
      omega
    obtain ⟨others, rfl⟩ : before <+: cs :=
      List.prefix_of_prefix_length_le ⟨after, hinner.symm⟩ (List.prefix_append cs [')']) hle
    rw [Balanced, unclosed, List.foldlM_append] at h
    obtain ⟨stack, hstack, -⟩ := Option.bind_eq_some_iff.1 h
    have hopen : before.foldlM turn [')'] = some (stack ++ [')']) :=
      foldlM_turn_append hstack [')']
    rw [hcons, hopen]
    cases stack with
    | nil => exact ⟨_, _, rfl⟩
    | cons d stack => exact ⟨d, _, rfl⟩

end SplitEditor.Brackets
