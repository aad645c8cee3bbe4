import GameServer.GObject.PetUpgrade

namespace GameServer.GObject.PetOwner

section menus
variable (g : GData)

-- The equip without a gem that an id finds in the bag.
def dish (o : PetOwner) (token : List Char) : Option ItemPetEq :=
  (o.equipAt (.bag (itemKey token))).filter fun eatEq => ¬ eatEq.hasGem g

-- Once it is eaten, whoever has the 64 bits of the id leaves the bag, unless
-- the id is 0 at 32.
def clears (o : PetOwner) (token : List Char) : PetOwner :=
  if (dish g o token).isSome ∧ itemKey token ≠ 0 then o.DelPetEquip (itemId token) else o

def cleared (o : PetOwner) (tokens : List (List Char)) : PetOwner := tokens.foldl (clears g) o

-- The ids of one pass that find an equip to eat, and those of several passes.
def menu (o : PetOwner) : List (List Char) → List (List Char)
  | [] => []
  | token :: tokens => if (dish g o token).isSome then token :: menu (clears g o token) tokens else menu o tokens

def menus (tokens : List (List Char)) : PetOwner → Nat → List (List Char)
  | _,0 => []
  | o,passes+1 => menu g o tokens++menus tokens (cleared g o tokens) passes

-- What an id is eaten of. All but the equip that grows are as they were at first.
def plate (o : PetOwner) (spot : Spot) (equip : ItemPetEq) (token : List Char) : ItemPetEq :=
  if spot = .bag (itemKey token) then equip else (o.equipAt (.bag (itemKey token))).getD equip

-- There is a next level, and the highest is reached or the id is 1.
def Sated (equip eatEq : ItemPetEq) (token : List Char) : Prop := equip.upExp g ≠ 0 ∧ (Tops g equip eatEq ∨ itemKey token = 1)

-- The equip eats its way through the ids up to the first that sates it, which
-- is not to be itself. If none does, the list has to be short.
def Ends (spot : Spot) (o : PetOwner) (short : Prop) : ItemPetEq → List (List Char) → Prop
  | _,[] => short
  | equip,token :: tokens => (Sated g equip (plate o spot equip token) token → spot ≠ .bag (itemId token)) ∧
      (¬ Sated g equip (plate o spot equip token) token →
        Ends spot o short ((equip.equipUpgrade g (plate o spot equip token)).2.getD equip) tokens)

end menus

variable {g : GData} {spot : Spot} {o bag : PetOwner} {m next : Meal} {token : List Char}

-- Ids that are the same at 32 bits and at 64 and not 0 are of use only once.
theorem dish_clears (other : List Char) (absent : dish g o token = none) : dish g (clears g o other) token = none := by
  unfold clears
  split
  · rw [dish,equipAt_del]
    split
    · rfl
    · exact absent
  · exact absent

theorem dish_cleared (tokens : List (List Char)) (absent : dish g o token = none) : dish g (cleared g o tokens) token = none := by
  induction tokens generalizing o with
  | nil => exact absent
  | cons other tokens ih => exact ih (dish_clears other absent)

theorem dish_once (whole : itemId token = itemKey token ∧ itemKey token ≠ 0) : dish g (clears g o token) token = none := by
  cases found : dish g o token with
  | none => exact dish_clears token found
  | some eatEq =>
      rw [clears,if_pos ⟨by rw [found]; rfl,whole.2⟩,dish,equipAt_del,if_pos (congrArg Spot.bag whole.1.symm)]
      rfl

theorem cleared_once {tokens : List (List Char)} (whole : ∀ token ∈ tokens, itemId token = itemKey token ∧ itemKey token ≠ 0)
    (member : token ∈ tokens) : dish g (cleared g o tokens) token = none := by
  induction tokens generalizing o with
  | nil => cases member
  | cons first tokens ih =>
      obtain same | later := List.mem_cons.mp member
      · subst same
        exact dish_cleared tokens (dish_once (whole _ List.mem_cons_self))
      · exact ih (fun other among => whole other (List.mem_cons_of_mem _ among)) later

theorem menu_none {tokens : List (List Char)} (absent : ∀ token ∈ tokens, dish g o token = none) : menu g o tokens = [] := by
  induction tokens with
  | nil => rfl
  | cons token tokens ih =>
      rw [menu,absent token List.mem_cons_self]
      exact ih fun other member => absent other (List.mem_cons_of_mem _ member)

theorem menus_none {tokens : List (List Char)} (absent : ∀ token ∈ tokens, dish g o token = none) (passes : Nat) :
    menus g tokens o passes = [] := by
  induction passes generalizing o with
  | zero => rfl
  | succ passes ih =>
      rw [menus,menu_none absent,ih fun token member => dish_cleared tokens (absent token member)]
      rfl

theorem menus_once {tokens : List (List Char)} (whole : ∀ token ∈ tokens, itemId token = itemKey token ∧ itemKey token ≠ 0) (passes : Nat) :
    menus g tokens o (passes+1) = menu g o tokens := by
  rw [menus,menus_none (fun _ member => cleared_once whole member),List.append_nil]

-- The bag of the loop is the one that only loses equips, but for the equip
-- that grows.
structure Laid (g : GData) (spot : Spot) (o bag : PetOwner) (equip : ItemPetEq) (m : Meal) : Prop extends Run o spot m where
  there : m.owner.equipAt spot = some equip
  low : equip.m_peAttr.lv < g.getEquipMaxLev
  others : ∀ key, .bag key ≠ spot → m.owner.equipAt (.bag key) = bag.equipAt (.bag key)
  self : ∃ first, bag.equipAt spot = some first ∧ first.m_peAttr.gems = equip.m_peAttr.gems

theorem laid_idle (laid : Laid g spot o bag equip m) (absent : dish g bag token = none) : Idle g spot m.owner token := by
  by_cases own : Spot.bag (itemKey token) = spot
  · obtain ⟨first,was,gems⟩ := laid.self
    have gem : first.hasGem g := by simpa [dish,own,was,Option.filter] using absent
    refine Or.inr (Or.inl ⟨equip,own ▸ laid.there,?_⟩)
    rwa [ItemPetEq.hasGem,← gems]
  · have same := laid.others _ own
    obtain gone | ⟨eatEq,found⟩ := Option.eq_none_or_eq_some (bag.equipAt (.bag (itemKey token)))
    · exact Or.inl (same.trans gone)
    · have gem : eatEq.hasGem g := by simpa [dish,found,Option.filter] using absent
      exact Or.inr (Or.inl ⟨eatEq,same.trans found,gem⟩)

theorem laid_eats (laid : Laid g spot o bag equip m) (found : (dish g bag token).isSome) (rises : equip.upExp g ≠ 0) :
    eats g spot m.owner token = some (equip,plate o spot equip token) := by
  obtain ⟨eatEq,served⟩ := Option.isSome_iff_exists.mp found
  obtain ⟨was,bare⟩ : bag.equipAt (.bag (itemKey token)) = some eatEq ∧ ¬ eatEq.hasGem g := by
    simpa [dish,Option.filter_eq_some_iff] using served
  by_cases own : spot = .bag (itemKey token)
  · obtain ⟨first,first',gems⟩ := laid.self
    rw [own] at first'
    cases was.symm.trans first'
    have bare' : ¬ equip.hasGem g := by
      rw [ItemPetEq.hasGem,← gems]
      exact bare
    simp [eats,← own,laid.there,bare',rises,plate]
  · have apart : Spot.bag (itemKey token) ≠ spot := fun same => own same.symm
    have now := (laid.others _ apart).trans was
    have first := bag_before laid.toRun now apart
    simp [eats,now,bare,laid.there,rises,plate,own,first]

-- The equip that is left is the one that equipUpgrade wrote.
theorem feed_written {m : Meal} (eaten : eats g spot m.owner token = some (equip,eatEq)) (below : equip.m_peAttr.lv < g.getEquipMaxLev)
    (fed : feed g spot m token = some (last,next)) (left : next.owner.equipAt spot = some fat) :
    (equip.equipUpgrade g eatEq).2 = some fat := by
  obtain ⟨found,bare,there,rises⟩ := eats_parts eaten
  obtain ⟨res,grown,upgraded,_⟩ := upgrade_fattens equip eatEq below rises
  have wrote := equipAt_write m.owner grown there spot
  rw [if_pos rfl] at wrote
  rw [upgraded]
  simp only [feed,found,bare,there,upgraded,if_false,Option.map_some,Option.some.injEq] at fed
  split at fed
  · cases fed
    rw [equipAt_del] at left
    split at left
    · cases left
    · exact wrote.symm.trans left
  · cases fed
    exact wrote.symm.trans left

theorem laid_feed (safe : ∀ token, itemKey token ≠ 0 → spot ≠ .bag (itemId token)) (laid : Laid g spot o bag equip m)
    (found : (dish g bag token).isSome) (rises : equip.upExp g ≠ 0) :
    ∃ last next, feed g spot m token = some (last,next) ∧ (last = true ↔ Sated g equip (plate o spot equip token) token) ∧
      (last = true → (next.owner.equipAt spot ≠ none ↔ spot ≠ .bag (itemId token))) ∧
      (last = false → Laid g spot o (clears g bag token) ((equip.equipUpgrade g (plate o spot equip token)).2.getD equip) next) := by
  have eaten := laid_eats laid found rises
  obtain ⟨last,next,fat,fed,ate⟩ := feed_eats laid.keyed eaten laid.low
  obtain ⟨run,lower⟩ := ate_run laid.toRun laid.there ate
  refine ⟨last,next,fed,?_,?_,?_⟩
  · simp [ate.stops,Sated,rises]
  · intro stop
    constructor
    · intro alive own
      apply alive
      rw [own]
      apply ate.gone
      obtain tops | one := ate.stops.mp stop
      · exact Or.inl tops
      · exact Or.inr (by rw [one]; decide)
    · intro apart
      rw [ate.kept spot (Or.inl apart),if_pos rfl]
      exact Option.some_ne_none fat
  · intro going
    obtain ⟨low,_⟩ := not_or.mp (mt ate.stops.mpr (by simp [going]))
    have stays : spot ≠ .bag (itemId token) ∨ ¬ (Tops g equip (plate o spot equip token) ∨ itemKey token ≠ 0) := by
      by_cases zero : itemKey token = 0
      · exact Or.inr (by simp [low,zero])
      · exact Or.inl (safe token zero)
    have left := ate.kept spot stays
    rw [if_pos rfl] at left
    rw [feed_written eaten laid.low fed left,Option.getD_some]
    refine ⟨run,left,ate.low going,?_,?_⟩
    · intro key apart
      unfold clears
      by_cases zero : itemKey token = 0
      · rw [if_neg (by simp [zero]),ate.kept _ (Or.inr (by simp [low,zero])),if_neg apart]
        exact laid.others key apart
      · rw [if_pos ⟨found,zero⟩,equipAt_del]
        by_cases here : Spot.bag key = .bag (itemId token)
        · rw [if_pos here,here]
          exact ate.gone (Or.inr zero)
        · rw [if_neg here,ate.kept _ (Or.inl here),if_neg apart]
          exact laid.others key apart
    · obtain ⟨first,was,gems⟩ := laid.self
      refine ⟨first,?_,gems.trans ate.same.2.symm⟩
      unfold clears
      split
      · rename_i gone
        rw [equipAt_del,if_neg (safe token gone.2)]
        exact was
      · exact was

theorem flat_ends (flat : equip.upExp g = 0) (short : Prop) (tokens : List (List Char)) : Ends g spot o short equip tokens ↔ short := by
  induction tokens with
  | nil => exact Iff.rfl
  | cons token tokens ih =>
      simp only [Ends,Sated,flat,ne_eq,not_true_eq_false,false_and,false_implies,not_false_eq_true,true_implies,true_and]
      rw [ItemPetEq.equipUpgrade,if_pos flat]
      exact ih

-- One pass over the ids is one over the menu, unless the equip comes to a
-- level without a next one, from where nothing changes any more.
theorem pass_ends (safe : ∀ token, itemKey token ≠ 0 → spot ≠ .bag (itemId token)) (tokens : List (List Char))
    (laid : Laid g spot o bag equip m) : ∃ last next, feedAll g spot m tokens = some (last,next) ∧
      (last = true → ∀ short rest, Ends g spot o short equip (menu g bag tokens++rest) ↔ next.owner.equipAt spot ≠ none) ∧
      (last = false → ∃ fat, next.owner.equipAt spot = some fat ∧ (fat.upExp g = 0 ∨ Laid g spot o (cleared g bag tokens) fat next) ∧
        ∀ short rest, Ends g spot o short equip (menu g bag tokens++rest) ↔ Ends g spot o short fat rest) := by
  induction tokens generalizing bag equip m with
  | nil =>
      refine ⟨false,m,rfl,nofun,?_⟩
      intro _
      exact ⟨equip,laid.there,Or.inr laid,fun short rest => Iff.rfl⟩
  | cons token tokens ih =>
      by_cases found : (dish g bag token).isSome
      · by_cases flat : equip.upExp g = 0
        · refine ⟨false,m,idle_all fun _ _ => Or.inr (Or.inr ⟨equip,laid.there,flat⟩),nofun,?_⟩
          intro _
          refine ⟨equip,laid.there,Or.inl flat,?_⟩
          intro short rest
          rw [flat_ends flat,flat_ends flat]
        · obtain ⟨last,next,fed,sated,stop,going⟩ := laid_feed safe laid found flat
          rw [feedAll_cons fed,menu,if_pos found]
          cases last with
          | true =>
              refine ⟨true,next,rfl,?_,nofun⟩
              intro _ short rest
              simp only [List.cons_append,Ends,sated.mp rfl,true_implies,not_true_eq_false,false_implies,and_true]
              exact (stop rfl).symm
          | false =>
              have hungry : ¬ Sated g equip (plate o spot equip token) token := fun full => Bool.noConfusion (sated.mpr full)
              simp only [List.cons_append,Ends,hungry,false_implies,not_false_eq_true,true_implies,true_and]
              exact ih (going rfl)
      · have absent := Option.not_isSome_iff_eq_none.mp found
        have same : clears g bag token = bag := if_neg fun there => found there.1
        rw [feedAll_cons (idle_feed (laid_idle laid absent)),menu,if_neg found,cleared,List.foldl_cons,same]
        exact ih laid

theorem rounds_end (safe : ∀ token, itemKey token ≠ 0 → spot ≠ .bag (itemId token)) (tokens : List (List Char))
    (laid : Laid g spot o bag equip m) :
    (∃ rounds last, feedRounds g spot tokens rounds m = some last ∧ last.owner.equipAt spot ≠ none) ↔
      ∃ passes, Ends g spot o (tokens.length < 256) equip (menus g (tokens.take 256) bag (passes+1)) := by
  constructor
  · rintro ⟨rounds,left,ran,alive⟩
    induction rounds generalizing bag equip m with
    | zero => cases ran
    | succ rounds ih =>
        obtain ⟨last,next,all,stop,going⟩ := pass_ends safe (tokens.take 256) laid
        rw [feedRounds,all,Option.bind_some] at ran
        cases last with
        | true =>
            cases ran
            exact ⟨0,(stop rfl _ _).mpr alive⟩
        | false =>
            obtain ⟨fat,there,state,same⟩ := going rfl
            by_cases short : tokens.length < 256
            · refine ⟨0,(same _ _).mpr ?_⟩
              exact short
            · simp only [Bool.false_or,decide_eq_true_eq,short,if_false] at ran
              obtain flat | laid' := state
              · rw [idle_rounds (fun _ _ => Or.inr (Or.inr ⟨fat,there,flat⟩)) short] at ran
                cases ran
              · obtain ⟨passes,ends⟩ := ih laid' ran
                exact ⟨passes+1,(same _ _).mpr ends⟩
  · rintro ⟨passes,ends⟩
    induction passes generalizing bag equip m with
    | zero =>
        obtain ⟨last,next,all,stop,going⟩ := pass_ends safe (tokens.take 256) laid
        refine ⟨1,next,?_⟩
        rw [feedRounds,all,Option.bind_some]
        cases last with
        | true => exact ⟨rfl,(stop rfl _ _).mp ends⟩
        | false =>
            obtain ⟨fat,there,_,same⟩ := going rfl
            have short : tokens.length < 256 := (same _ _).mp ends
            refine ⟨if_pos (by simpa using short),?_⟩
            rw [there]
            exact Option.some_ne_none fat
    | succ passes ih =>
        obtain ⟨last,next,all,stop,going⟩ := pass_ends safe (tokens.take 256) laid
        cases last with
        | true =>
            refine ⟨1,next,?_,(stop rfl _ _).mp ends⟩
            rw [feedRounds,all,Option.bind_some]
            rfl
        | false =>
            obtain ⟨fat,there,state,same⟩ := going rfl
            have ends' := (same _ _).mp ends
            by_cases short : tokens.length < 256
            · refine ⟨1,next,?_,by rw [there]; exact Option.some_ne_none fat⟩
              rw [feedRounds,all,Option.bind_some]
              exact if_pos (by simpa using short)
            · obtain flat | laid' := state
              · exact absurd ((flat_ends flat _ _).mp ends') short
              · obtain ⟨rounds,left,ran,alive⟩ := ih laid' ends'
                refine ⟨rounds+1,left,?_,alive⟩
                rw [feedRounds,all,Option.bind_some]
                simpa [short] using ran

-- DelPetEquip never takes the equip out of the hands of the loop by an id
-- that is not 0 at 32 bits: it is worn, or it is the equip 0 of the bag.
theorem spot_safe {search : PetSearch} {petId : UInt16} {id : UInt64} (found : o.FindPetEquip search petId id = some spot)
    (token : List Char) (some : itemKey token ≠ 0) : spot ≠ .bag (itemId token) := by
  obtain ⟨_,_,⟨bagged,_⟩ | ⟨pos,worn,_⟩⟩ := o.find_there search petId id found
  · intro own
    have zero : itemId token = 0 := Spot.bag.inj (own.symm.trans bagged)
    apply some
    rw [itemKey,zero]
    rfl
  · rw [worn]
    intro own
    cases own

theorem upgrade_returns_iff (g : GData) (search : PetSearch) (o : Collector) (petId : UInt32) (equipId : UInt64) (idStr : List Char) :
    (∃ rounds result m, o.equipUpgrade g search petId equipId idStr rounds = some (result,m)) ↔
      ∀ spot equip, o.FindPetEquip search petId.toUInt16 equipId = some spot → o.equipAt spot = some equip →
        equip.m_peAttr.lv < g.getEquipMaxLev →
          ∃ passes, Ends g spot o.toPetOwner ((StringTokenizer idStr ',').length < 256) equip
            (menus g ((StringTokenizer idStr ',').take 256) o.toPetOwner (passes+1)) := by
  obtain absent | ⟨spot,found⟩ := Option.eq_none_or_eq_some (o.FindPetEquip search petId.toUInt16 equipId)
  · refine iff_of_true ⟨0,0,⟨o.toPetOwner,[]⟩,by simp [equipUpgrade,absent]⟩ ?_
    intro spot equip found
    cases absent.symm.trans found
  obtain ⟨equip,there,_⟩ := o.find_there search petId.toUInt16 equipId found
  by_cases below : equip.m_peAttr.lv < g.getEquipMaxLev
  · have laid : Laid g spot o.toPetOwner o.toPetOwner equip ⟨o.toPetOwner,[]⟩ := by
      refine ⟨⟨o.keyed,fun _ _ => Or.inl rfl,?_⟩,there,below,fun _ _ => rfl,equip,there,rfl⟩
      intro _ booked
      cases booked
    have ends := rounds_end (spot_safe found) (StringTokenizer idStr ',') laid
    have returns (rounds : Nat) : (∃ result m, o.equipUpgrade g search petId equipId idStr rounds = some (result,m)) ↔
        ∃ last, feedRounds g spot (StringTokenizer idStr ',') rounds ⟨o.toPetOwner,[]⟩ = some last ∧ last.owner.equipAt spot ≠ none := by
      simp only [equipUpgrade,found,there,Option.bind_some,ge_iff_le,UInt8.not_le.mpr below,if_false]
      cases feedRounds g spot (StringTokenizer idStr ',') rounds ⟨o.toPetOwner,[]⟩ with
      | none => simp
      | some last => cases left : last.owner.equipAt spot <;> simp [left]
    simp only [returns,ends]
    constructor
    · intro passes spot' equip' found' there' _
      cases found.symm.trans found'
      cases there.symm.trans there'
      exact passes
    · intro every
      exact every spot equip found there below
  · refine iff_of_true ⟨0,0,⟨o.toPetOwner,[]⟩,by simp [equipUpgrade,found,there,UInt8.not_lt.mp below]⟩ ?_
    intro spot' equip' found' there' low
    cases found.symm.trans found'
    cases there.symm.trans there'
    exact absurd low below

-- 256 ids that are all empty.
theorem upgrade_forever : ∃ idStr, ¬ ∃ rounds result m, keeper.equipUpgrade GData.plain PetSearch.plain 1 7 idStr rounds = some (result,m) := by
  obtain ⟨idStr,tokens⟩ : ∃ idStr, StringTokenizer idStr ',' = List.replicate 256 [] := ⟨List.replicate 256 ',',by decide +kernel⟩
  refine ⟨idStr,?_⟩
  intro ⟨rounds,result,m,ran⟩
  have nobody : keeper.equipAt (.bag (itemKey [])) = none := by decide +kernel
  have found : keeper.FindPetEquip PetSearch.plain (1 : UInt32).toUInt16 7 = some (.worn 1 0) := by decide +kernel
  have idle : ∀ token ∈ (StringTokenizer idStr ',').take 256, Idle GData.plain (.worn 1 0) keeper.toPetOwner token := by
    intro token member
    rw [tokens] at member
    rw [List.eq_of_mem_replicate (List.mem_of_mem_take member)]
    exact Or.inl nobody
  have round := idle_rounds (m := ⟨keeper.toPetOwner,[]⟩) idle (by rw [tokens,List.length_replicate]; decide) rounds
  obtain ⟨equip,there⟩ : ∃ equip, keeper.equipAt (.worn 1 0) = some equip ∧ equip.m_peAttr.lv < GData.plain.getEquipMaxLev :=
    ⟨_,rfl,by decide⟩
  rw [equipUpgrade,found] at ran
  simp [there.1,UInt8.not_le.mpr there.2,round] at ran

end GameServer.GObject.PetOwner
