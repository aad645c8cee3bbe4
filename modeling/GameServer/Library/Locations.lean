import Mathlib.Data.List.Basic

namespace GameServer.Locations

-- What a component of a path does: nothing, out of a directory, into one.
inductive Kind where
  | stay
  | up
  | down
  deriving DecidableEq

variable {γ : Type _} (kind : γ → Kind)

-- A location is the names on the way to it; the one above the root is the root.
def step (location : List γ) (c : γ) : List γ :=
  match kind c with
  | .stay => location
  | .up => location.dropLast
  | .down => location ++ [c]

def walk (location : List γ) (components : List γ) : List γ := components.foldl (step kind) location

-- One more component behind others, which it may cancel.
def push (rooted : Bool) (components : List γ) (c : γ) : List γ :=
  match kind c with
  | .stay => components
  | .down => components ++ [c]
  | .up =>
      match components.getLast? with
      | some last => if kind last ≠ .up then components.dropLast else if rooted then components else components ++ [c]
      | none => if rooted then components else components ++ [c]

-- First those that lead out, none of them from a root, then those that lead in.
structure Normal (rooted : Bool) (components : List γ) : Prop where
  split : ∃ ups downs, components = ups ++ downs ∧ (∀ c ∈ ups, kind c = .up) ∧ (∀ c ∈ downs, kind c = .down) ∧
    (rooted = true → ups = [])

variable {kind} {rooted : Bool} {components : List γ} {location : List γ} {c : γ}

theorem step_up (is : kind c = .up) : step kind location c = location.dropLast := by
  unfold step
  rw [is]

theorem step_down (is : kind c = .down) : step kind location c = location ++ [c] := by
  unfold step
  rw [is]

theorem step_stay (is : kind c = .stay) : step kind location c = location := by
  unfold step
  rw [is]

theorem walk_snoc (components : List γ) (c : γ) : walk kind location (components ++ [c]) = step kind (walk kind location components) c := by
  rw [walk,List.foldl_append]
  rfl

theorem walk_append (front back : List γ) : walk kind location (front ++ back) = walk kind (walk kind location front) back :=
  List.foldl_append

theorem walk_downs {downs : List γ} (down : ∀ c ∈ downs, kind c = .down) : walk kind location downs = location ++ downs := by
  induction downs generalizing location with
  | nil => exact (List.append_nil _).symm
  | cons c downs ih =>
      have inner := @ih (location ++ [c]) fun d member => down d (List.mem_cons_of_mem _ member)
      rw [List.append_assoc] at inner
      rw [walk,List.foldl_cons,step_down (down c List.mem_cons_self)]
      exact inner

theorem normal_nil : Normal kind rooted [] :=
  ⟨[],[],rfl,fun _ member => (List.not_mem_nil member).elim,fun _ member => (List.not_mem_nil member).elim,fun _ => rfl⟩

theorem normal_down (normal : Normal kind rooted components) (is : kind c = .down) : Normal kind rooted (components ++ [c]) := by
  obtain ⟨ups,downs,split,up,down,root⟩ := normal.split
  refine ⟨ups,downs ++ [c],by rw [split,List.append_assoc],up,?_,root⟩
  intro d member
  rcases List.mem_append.mp member with old | new
  · exact down d old
  · rw [List.mem_singleton.mp new]
    exact is

theorem normal_downs {downs : List γ} (normal : Normal kind rooted components) (down : ∀ c ∈ downs, kind c = .down) :
    Normal kind rooted (components ++ downs) := by
  induction downs generalizing components with
  | nil =>
      rw [List.append_nil]
      exact normal
  | cons c downs ih =>
      have inner := ih (normal_down normal (down c List.mem_cons_self)) fun d member => down d (List.mem_cons_of_mem _ member)
      rw [List.append_assoc] at inner
      exact inner

theorem normal_inner (normal : Normal kind rooted components) (inner : ∀ c ∈ components, kind c ≠ .up) :
    ∀ c ∈ components, kind c = .down := by
  obtain ⟨ups,downs,rfl,up,down,-⟩ := normal.split
  intro c member
  rcases List.mem_append.mp member with out | behind
  · exact absurd (up c out) (inner c member)
  · exact down c behind

-- The last of normal components leads in, or all of them lead out.
theorem normal_last (normal : Normal kind rooted components) :
    (∃ front last, components = front ++ [last] ∧ kind last = .down ∧ Normal kind rooted front) ∨
    ((∀ c ∈ components, kind c = .up) ∧ (rooted = true → components = [])) := by
  obtain ⟨ups,downs,split,up,down,root⟩ := normal.split
  rcases List.eq_nil_or_concat' downs with none | ⟨front,last,some⟩
  · rw [none,List.append_nil] at split
    subst split
    exact Or.inr ⟨up,root⟩
  · subst some
    refine Or.inl ⟨ups ++ front,last,by rw [split,List.append_assoc],down last (List.mem_append_right _ List.mem_cons_self),
      ⟨ups,front,rfl,up,?_,root⟩⟩
    intro c member
    exact down c (List.mem_append_left _ member)

theorem push_stay (is : kind c = .stay) : push kind rooted components c = components := by
  unfold push
  rw [is]

theorem push_down (is : kind c = .down) : push kind rooted components c = components ++ [c] := by
  unfold push
  rw [is]

theorem push_cancels {last : γ} (is : kind c = .up) (inner : kind last ≠ .up) :
    push kind rooted (components ++ [last]) c = components := by
  unfold push
  rw [is,List.getLast?_concat]
  dsimp only
  rw [if_pos inner,List.dropLast_concat]

theorem push_out (is : kind c = .up) (up : ∀ last ∈ components.getLast?, kind last = .up) :
    push kind rooted components c = if rooted then components else components ++ [c] := by
  unfold push
  rw [is]
  dsimp only
  cases last : components.getLast? with
  | none => rfl
  | some d =>
      dsimp only
      rw [if_neg (fun other => other (up d last))]

theorem normal_push (normal : Normal kind rooted components) (c : γ) : Normal kind rooted (push kind rooted components c) := by
  cases is : kind c with
  | stay =>
      rw [push_stay is]
      exact normal
  | down =>
      rw [push_down is]
      exact normal_down normal is
  | up =>
      rcases normal_last normal with ⟨front,last,rfl,inner,before⟩ | ⟨up,root⟩
      · rw [push_cancels is (by rw [inner]; decide)]
        exact before
      · rw [push_out is (fun last member => up last (List.mem_of_getLast? member))]
        split
        · exact normal
        · rename_i loose
          refine ⟨components ++ [c],[],(List.append_nil _).symm,?_,fun _ member => (List.not_mem_nil member).elim,
            fun root => absurd root loose⟩
          intro d member
          rcases List.mem_append.mp member with old | new
          · exact up d old
          · rw [List.mem_singleton.mp new]
            exact is

-- A component pushed leads on from where the others lead.
theorem walk_push (normal : Normal kind rooted components) (c : γ) (start : rooted = true → location = []) :
    walk kind location (push kind rooted components c) = step kind (walk kind location components) c := by
  cases is : kind c with
  | stay => rw [push_stay is,step_stay is]
  | down => rw [push_down is,walk_snoc]
  | up =>
      rcases normal_last normal with ⟨front,last,rfl,inner,_⟩ | ⟨up,root⟩
      · rw [push_cancels is (by rw [inner]; decide),walk_snoc,step_down inner,step_up is,List.dropLast_concat]
      · rw [push_out is (fun last member => up last (List.mem_of_getLast? member))]
        split
        · rename_i rooted
          rw [root rooted,start rooted,step_up is]
          rfl
        · exact walk_snoc _ _

theorem normal_pushes (normal : Normal kind rooted components) (cs : List γ) :
    Normal kind rooted (cs.foldl (push kind rooted) components) := by
  induction cs generalizing components with
  | nil => exact normal
  | cons c cs ih => exact ih (normal_push normal c)

theorem walk_pushes (normal : Normal kind rooted components) (cs : List γ) (start : rooted = true → location = []) :
    walk kind location (cs.foldl (push kind rooted) components) = walk kind (walk kind location components) cs := by
  induction cs generalizing components with
  | nil => rfl
  | cons c cs ih =>
      rw [List.foldl_cons,ih (normal_push normal c),walk_push normal c start]
      rfl

-- Normal components come back when they are pushed again.
theorem push_next {front back : List γ} (normal : Normal kind rooted (front ++ c :: back)) :
    push kind rooted front c = front ++ [c] := by
  obtain ⟨ups,downs,same,up,down,root⟩ := normal.split
  rcases List.append_eq_append_iff.mp same with ⟨middle,before,behind⟩ | ⟨middle,before,behind⟩
  · rcases List.append_eq_cons_iff.mp behind.symm with ⟨none,inner⟩ | ⟨rest,some,-⟩
    · exact push_down (down c (inner ▸ List.mem_cons_self))
    · have member : c ∈ ups := by
        rw [before,some]
        exact List.mem_append_right _ List.mem_cons_self
      have loose : ¬rooted = true := fun rooted => List.not_mem_nil (root rooted ▸ member)
      rw [push_out (up c member) fun last ends => up last (before ▸ List.mem_append_left _ (List.mem_of_getLast? ends)),if_neg loose]
  · exact push_down (down c (behind ▸ List.mem_append_right _ List.mem_cons_self))

theorem head_push {a d : γ} {rest : List γ} (first : (push kind rooted (a :: rest) c).head? = some d) : d = a := by
  unfold push at first
  have old (is : (a :: rest).head? = some d) : d = a := (Option.some.inj is).symm
  have behind (is : (a :: rest ++ [c]).head? = some d) : d = a := (Option.some.inj is).symm
  split at first
  · exact old first
  · exact behind first
  · split at first
    · split at first
      · rcases rest with _ | ⟨b,rest⟩
        · cases first
        · exact old first
      · split at first
        · exact old first
        · exact behind first
    · split at first
      · exact old first
      · exact behind first

-- Nothing is among the components but what was pushed.
theorem mem_push {d : γ} (member : d ∈ push kind rooted components c) : d ∈ components ∨ d = c := by
  unfold push at member
  have old : d ∈ components → d ∈ components ∨ d = c := Or.inl
  have behind (inside : d ∈ components ++ [c]) : d ∈ components ∨ d = c :=
    (List.mem_append.mp inside).imp_right List.mem_singleton.mp
  split at member
  · exact old member
  · exact behind member
  · split at member
    · split at member
      · exact old (List.dropLast_subset _ member)
      · split at member
        · exact old member
        · exact behind member
    · split at member
      · exact old member
      · exact behind member

theorem mem_pushes {d : γ} {cs : List γ} (member : d ∈ cs.foldl (push kind rooted) components) : d ∈ components ∨ d ∈ cs := by
  induction cs generalizing components with
  | nil => exact Or.inl member
  | cons c cs ih =>
      rcases ih member with before | later
      · rcases mem_push before with old | new
        · exact Or.inl old
        · exact Or.inr (new ▸ List.mem_cons_self)
      · exact Or.inr (List.mem_cons_of_mem _ later)

section texts

variable {α : Type _} [DecidableEq α]

-- What is before each separator of a text, and what is behind the last.
def split (separator : α) : List α → List (List α) × List α
  | [] => ([],[])
  | c :: rest =>
      if c = separator then ([] :: (split separator rest).1,(split separator rest).2)
      else
        match split separator rest with
        | ([],name) => ([],c :: name)
        | (d :: dirs,name) => ((c :: d) :: dirs,name)

def join (separator : α) (dirs : List (List α)) (name : List α) : List α :=
  dirs.foldr (fun dir text => dir ++ separator :: text) name

variable {separator : α} {text name : List α} {dirs : List (List α)}

theorem split_piece (whole : separator ∉ text) : split separator text = ([],text) := by
  induction text with
  | nil => rfl
  | cons c text ih =>
      rw [split,if_neg (fun same => whole (List.mem_cons.mpr (Or.inl same.symm))),ih (fun member => whole (List.mem_cons_of_mem _ member))]

theorem split_cut (whole : separator ∉ name) (text : List α) :
    split separator (name ++ separator :: text) = (name :: (split separator text).1,(split separator text).2) := by
  induction name with
  | nil => exact if_pos rfl
  | cons c name ih =>
      rw [List.cons_append,split,if_neg (fun same => whole (List.mem_cons.mpr (Or.inl same.symm))),
        ih (fun member => whole (List.mem_cons_of_mem _ member))]

theorem split_pieces (separator : α) (text : List α) :
    ∀ d ∈ (split separator text).2 :: (split separator text).1, separator ∉ d := by
  induction text with
  | nil =>
      intro d member inside
      rw [List.mem_singleton.mp member] at inside
      exact List.not_mem_nil inside
  | cons c text ih =>
      unfold split
      by_cases same : c = separator
      · rw [if_pos same]
        intro d member inside
        rcases List.mem_cons.mp member with last | before
        · exact ih d (last ▸ List.mem_cons_self) inside
        · rcases List.mem_cons.mp before with new | old
          · exact List.not_mem_nil (new ▸ inside)
          · exact ih d (List.mem_cons_of_mem _ old) inside
      · rw [if_neg same]
        have longer (d : List α) (old : separator ∉ d) : separator ∉ c :: d := by
          intro inside
          rcases List.mem_cons.mp inside with first | later
          · exact same first.symm
          · exact old later
        rcases pieces : split separator text with ⟨_ | ⟨first,dirs⟩,name⟩
        · rw [pieces] at ih
          intro d member
          rw [List.mem_singleton.mp member]
          exact longer name (ih name List.mem_cons_self)
        · rw [pieces] at ih
          intro d member
          rcases List.mem_cons.mp member with last | before
          · exact ih d (last ▸ List.mem_cons_self)
          · rcases List.mem_cons.mp before with new | old
            · rw [new]
              exact longer first (ih first (List.mem_cons_of_mem _ List.mem_cons_self))
            · exact ih d (List.mem_cons_of_mem _ (List.mem_cons_of_mem _ old))

theorem split_join (last : separator ∉ name) (whole : ∀ d ∈ dirs, separator ∉ d) :
    split separator (join separator dirs name) = (dirs,name) := by
  induction dirs with
  | nil => exact split_piece last
  | cons d dirs ih =>
      have inner := ih fun d member => whole d (List.mem_cons_of_mem _ member)
      rw [join,List.foldr_cons,split_cut (whole d List.mem_cons_self)]
      rw [join] at inner
      rw [inner]

end texts

end GameServer.Locations
