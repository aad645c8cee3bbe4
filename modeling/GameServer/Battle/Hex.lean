import GameServer.Battle.Ground

namespace GameServer.Battle.Hex
open Ground

-- Doubled columns: odd rows lie half a cell to the right.
def column (p : Ascoord) : Nat := 2*p.x.toNat + p.y.toNat % 2

theorem row_parity (y : UInt8) : (y % 2 = 0 ∧ y.toNat % 2 = 0) ∨ (y % 2 = 1 ∧ y.toNat % 2 = 1) := by
  have same : (y % 2).toNat = y.toNat % 2 := UInt8.toNat_mod y 2
  rcases Nat.mod_two_eq_zero_or_one y.toNat with even | odd
  · exact .inl ⟨UInt8.toNat_inj.mp (same.trans even),even⟩
  · exact .inr ⟨UInt8.toNat_inj.mp (same.trans odd),odd⟩

-- Eight bits of the column survive the conversion.
theorem converted_x (p : Ascoord) : (convertConverstion p).x.toNat = column p % 256 := by
  have small := p.x.toNat_lt
  unfold convertConverstion column
  rcases row_parity p.y with ⟨even,rest⟩ | ⟨odd,rest⟩
  · rw [if_neg (by rw [even]; decide),even,rest]
    simp only [UInt8.toNat_sub,UInt8.toNat_mul,UInt8.toNat_ofNat]
    omega
  · rw [if_pos odd,odd,rest]
    simp only [UInt8.toNat_sub,UInt8.toNat_mul,UInt8.toNat_add,UInt8.toNat_ofNat]
    omega

theorem converted_narrow (narrow : p.x.toNat < 127) : (convertConverstion p).x.toNat = column p := by
  rw [converted_x]
  unfold column
  omega

theorem coord_eq {p q : Ascoord} : p = q ↔ p.x.toNat = q.x.toNat ∧ p.y.toNat = q.y.toNat := by
  obtain ⟨x,y⟩ := p
  obtain ⟨x',y'⟩ := q
  rw [Ascoord.mk.injEq,UInt8.toNat_inj,UInt8.toNat_inj]

-- The lists of GetAround for the two parities, row by row.
theorem even_rows {row above below left right self : Prop} :
    (left ∧ row ∨ right ∧ row ∨ left ∧ below ∨ self ∧ below ∨ left ∧ above ∨ self ∧ above) ↔
      row ∧ (left ∨ right) ∨ (above ∨ below) ∧ (self ∨ left) := by
  grind

theorem odd_rows {row above below left right self : Prop} :
    (self ∧ above ∨ right ∧ row ∨ right ∧ above ∨ left ∧ row ∨ self ∧ below ∨ right ∧ below) ↔
      row ∧ (left ∨ right) ∨ (above ∨ below) ∧ (self ∨ right) := by
  grind

-- The six neighbours in numbers: two in the row, two in each row beside it.
theorem mem_around (c d : Ascoord) : d ∈ getAround c ↔
    (d.y.toNat = c.y.toNat ∧ (d.x.toNat = (c.x.toNat+255)%256 ∨ d.x.toNat = (c.x.toNat+1)%256)) ∨
    ((d.y.toNat = (c.y.toNat+255)%256 ∨ d.y.toNat = (c.y.toNat+1)%256) ∧
      (d.x.toNat = c.x.toNat ∨ d.x.toNat = (c.x.toNat+(if c.y.toNat % 2 = 0 then 255 else 1))%256)) := by
  have sub : ∀ a : UInt8, (a-1).toNat = (a.toNat+255)%256 := fun a => by
    rw [UInt8.toNat_sub,Nat.add_comm]; rfl
  have add : ∀ a : UInt8, (a+1).toNat = (a.toNat+1)%256 := fun a => UInt8.toNat_add a 1
  unfold getAround
  rcases row_parity c.y with ⟨even,rest⟩ | ⟨odd,rest⟩
  · rw [if_pos even,if_pos rest]
    simp only [List.mem_cons,List.not_mem_nil,or_false,coord_eq,sub,add]
    exact even_rows
  · rw [if_neg (by rw [odd]; decide),if_neg (by omega)]
    simp only [List.mem_cons,List.not_mem_nil,or_false,coord_eq,sub,add]
    exact odd_rows

-- A neighbour in the row is two columns away, one in the rows beside it is one.
theorem around_columns (near : d ∈ getAround c) (narrow : c.x.toNat < 127) (narrow' : d.x.toNat < 127) :
    (column d = column c + 2 ∨ column c = column d + 2) ∨ (column d = column c + 1 ∨ column c = column d + 1) := by
  have rows := c.y.toNat_lt
  rw [mem_around] at near
  unfold column
  split at near <;> omega

theorem around_symm (near : d ∈ getAround c) : c ∈ getAround d := by
  have small := c.x.toNat_lt
  have high := c.y.toNat_lt
  rw [mem_around] at near ⊢
  cases near with
  | inl row => exact Or.inl ⟨row.1.symm,by omega⟩
  | inr beside =>
      -- The rows beside an even one are odd, and round 256 as well.
      obtain ⟨rows,columns⟩ := beside
      refine Or.inr ⟨by omega,?_⟩
      by_cases even : c.y.toNat % 2 = 0
      · rw [if_pos even] at columns
        rw [if_neg (by omega)]
        omega
      · rw [if_neg even] at columns
        rw [if_pos (by omega)]
        omega

theorem not_around_self (p : Ascoord) : p ∉ getAround p := by
  have columns := p.x.toNat_lt
  have rows := p.y.toNat_lt
  rw [mem_around]
  omega

theorem isInAround_iff (b : Ground) (p t : Ascoord) : b.isInAround p t = true ↔ p ∈ getAround t ∧ b.isInMap p = true := by
  simp [isInAround,checkUp]

end GameServer.Battle.Hex
