import Mathlib.Algebra.GroupWithZero.Nat
import Mathlib.Data.List.GetD

namespace GameServer.Scripts.Store

structure Item where
  itemId : Nat
  limitcount : Nat
  price : Nat
  coinType : Nat
  deriving DecidableEq, Repr

-- Type 2 of page 1 and type 1 of page 2, the same for both keys.
def type1_2 : List Item :=
  [41003,41004,41005,41006,41007,41008,41009,41011,41012,41013,41014,41015,41016,41017,41018,41019].map (⟨·,1,10,20002⟩)

def type2_1 : List Item := [501,502,503,504].map (⟨·,100,100,20003⟩)

-- By key, page and type.
def storeItems : Nat → List (List (List Item))
  | 30 =>
    [[[⟨1,1,3000,20001⟩,⟨2,1,3000,20002⟩,⟨3,1,3000,20001⟩],type1_2],
     [type2_1,[⟨41002,100,100,20003⟩,⟨41010,1,500,20003⟩]]]
  | 60 =>
    [[[⟨4,1,3000,20001⟩,⟨5,1,3000,20001⟩,⟨6,1,3000,20001⟩],type1_2],
     [type2_1,[⟨41002,1,500,20003⟩,⟨41010,1,500,20003⟩]]]
  | _ => []

def itemCount : Nat → List (List Nat)
  | 30 => [[4,2],[4,2]]
  | 60 => [[4,2],[4,2]]
  | _ => []

def itemProb : Nat → List (List (List Nat))
  | 30 =>
    [[[3000,6000,10000],[1000,1500,2000,3000,4000,5000,6000,6500,7000,7500,8000,8500,9000,9500,9900,10000]],
     [[2500,5000,7500,10000],[5000,10000]]]
  | 60 =>
    [[[1000,3000,10000],[1000,1200,1300,1500,2000,2500,3000,3500,4000,5000,5800,6200,6500,7000,8000,10000]],
     [[2000,4000,8000,10000],[5000,10000]]]
  | _ => []

-- math.random(1, 10000), from a number for the draw
def random (draw : Nat) : Nat := 1 + draw % 10000

-- items[i][flag] with the first flag whose probability is not exceeded.
def drawn (items : List Item) (pro : List Nat) (draw : Nat) : Option Item :=
  (pro.findIdx? (random draw ≤ ·)).bind fun k => items[k]?

-- One type: as many draws as its count, from some draw on. Inserting nil
-- changes nothing.
def drawType (items : List Item) (pro : List Nat) (draws : Nat → Nat) (start num : Nat) : List Item :=
  (List.range' start num).filterMap fun n => drawn items pro (draws n)

-- The types one after the other, from type `i` on.
def drawTypes (items : List (List Item)) (prob : List (List Nat)) (draws : Nat → Nat) : Nat → Nat → List Nat → Option (List Item)
  | _,_,[] => some []
  | i,start,num :: count =>
    match prob[i]?,items[i]? with
    | some pro,some items_i =>
      (drawTypes items prob draws (i+1) (start+num) count).map fun more => drawType items_i pro draws start num ++ more
    | _,_ => none

-- Pages and types count from 1 in the source. `none`: nil is indexed.
def RandomItems (key index start : Nat) (draws : Nat → Nat) : Option (List Item) :=
  match (itemCount key)[index-1]?,(storeItems key)[index-1]?,(itemProb key)[index-1]? with
  | some count,some items,some prob => if index = 0 then none else drawTypes items prob draws 0 start count
  | _,_,_ => none

-- The draws for the pages before one.
def pageStart (key pageId : Nat) : Nat := (((itemCount key).take (pageId-1)).map List.sum).sum

def GetRandItems (key : Nat) (draws : Nat → Nat) : Option (List (Nat × List Item)) :=
  (List.range' 1 (storeItems key).length).mapM fun i => (RandomItems key i (pageStart key i) draws).map fun randItems => (i,randItems)

inductive Value where
  | nil
  | num (n : Nat)
  | items (list : List Item)
  deriving DecidableEq, Repr

-- A call of store:Add.
structure Add where
  pageId : Nat
  itemId : Value
  limitcount : Value
  price : Value
  coinType : Value
  deriving DecidableEq, Repr

def Item.add (pageId : Nat) (item : Item) : Add := ⟨pageId,.num item.itemId,.num item.limitcount,.num item.price,.num item.coinType⟩

-- The second and the third value are for a player whose store is nil or not.
structure Player where
  GetLevel : Nat
  GetStoreA : Bool

def keyOf (level : Nat) : Nat := if level < 30 then 30 else if level < 60 then 60 else 30

-- What is returned and the calls of Add. `none`: an error is raised.
def loadItems (player : Option Player) (draws : Nat → Nat) : Option (Bool × List Add) :=
  match player with
  | none => some (false,[])
  | some player =>
    if ¬player.GetStoreA then some (false,[])
    else
      let key := keyOf player.GetLevel
      (GetRandItems key draws).map fun pageItems => (true,pageItems.flatMap fun page => page.2.map (Item.add page.1))

-- The global variables `i` and `store` of the script: a value, and whether there
-- is an object with a method `clear` that returns.
structure Globals where
  i : Value
  store : Bool

def tableInsert (temp : List Value) (value : Value) : List Value := if value = .nil then temp else temp ++ [value]

def GetRandPageItems (g : Globals) (key pageId start : Nat) (draws : Nat → Nat) : Option (List (List Value)) :=
  (RandomItems key pageId start draws).map fun randItems => [tableInsert (tableInsert [] g.i) (.items randItems)]

-- items[j][k]
def field (row : List Value) (k : Nat) : Value := (row[k-1]?).getD .nil

def loadPageItems (g : Globals) (player : Option Player) (pageId start : Nat) (draws : Nat → Nat) : Option (Bool × List Add) :=
  match player with
  | none => some (false,[])
  | some player =>
    let key := keyOf player.GetLevel
    if ¬g.store then none
    else
      match GetRandPageItems g key pageId start draws with
      | none => none
      | some items =>
        if ¬player.GetStoreA then some (false,[])
        else some (true,items.map fun row => ⟨pageId,field row 1,field row 2,field row 3,field row 4⟩)

-- The page on its own is the page of the whole store from the same draws, and
-- every entry is one of the table.
def Agrees (g : Globals) (level pageId : Nat) (draws : Nat → Nat) : Prop :=
  ∃ all calls,
    loadItems (some ⟨level,true⟩) draws = some (true,all) ∧
    loadPageItems g (some ⟨level,true⟩) pageId (pageStart (keyOf level) pageId) draws = some (true,calls) ∧
    calls = all.filter (·.pageId = pageId) ∧
    ∀ call ∈ calls, ∃ item ∈ ((storeItems (keyOf level)).getD (pageId-1) []).flatten, call = item.add pageId

section draws
variable {items : List Item} {pro : List Nat} {draws : Nat → Nat}

-- Probabilities that reach every draw, each for an item of the type.
def Covered (pro : List Nat) (items : List Item) : Prop := pro.length ≤ items.length ∧ 10000 ∈ pro

instance : Decidable (Covered pro items) := inferInstanceAs (Decidable (_ ∧ _))

theorem drawn_item (covered : Covered pro items) (draw : Nat) : ∃ item ∈ items, drawn items pro draw = some item := by
  have few : random draw ≤ 10000 := by
    unfold random
    omega
  obtain ⟨k,found⟩ : ∃ k, pro.findIdx? (random draw ≤ ·) = some k :=
    Option.isSome_iff_exists.mp (by
      rw [List.findIdx?_isSome]
      exact List.any_eq_true.mpr ⟨10000,covered.2,decide_eq_true few⟩)
  have inside : k < items.length := Nat.lt_of_lt_of_le (List.findIdx?_eq_some_iff_findIdx_eq.mp found).1 covered.1
  refine ⟨items[k],List.getElem_mem inside,?_⟩
  rw [drawn,found,Option.bind_some,List.getElem?_eq_getElem inside]

theorem drawType_full (draws : Nat → Nat) (covered : Covered pro items) (start num : Nat) :
    (drawType items pro draws start num).length = num ∧ ∀ item ∈ drawType items pro draws start num, item ∈ items := by
  constructor
  · induction num generalizing start with
    | zero => rfl
    | succ num ih =>
        obtain ⟨item,_,got⟩ := drawn_item covered (draws start)
        rw [drawType,List.range'_succ,List.filterMap_cons_some (f := fun n => drawn items pro (draws n)) got,List.length_cons]
        exact congrArg (·+1) (ih (start+1))
  · intro item member
    obtain ⟨n,_,got⟩ := List.mem_filterMap.mp member
    obtain ⟨other,inside,same⟩ := drawn_item covered (draws n)
    rw [same] at got
    cases got
    exact inside

end draws

-- For each count there are probabilities that cover the items.
def Stocked (items : List (List Item)) (prob : List (List Nat)) (i : Nat) (count : List Nat) : Prop :=
  ∀ j < count.length, i+j < prob.length ∧ i+j < items.length ∧ Covered (prob.getD (i+j) []) (items.getD (i+j) [])

theorem stocked_next {items : List (List Item)} {prob : List (List Nat)} {i num : Nat} {count : List Nat}
    (stocked : Stocked items prob i (num :: count)) : Stocked items prob (i+1) count := by
  intro j below
  have next := stocked (j+1) (Nat.succ_lt_succ below)
  rwa [←Nat.add_assoc,Nat.add_right_comm] at next

theorem drawTypes_full {items : List (List Item)} {prob : List (List Nat)} {draws : Nat → Nat} {count : List Nat} (i start : Nat)
    (stocked : Stocked items prob i count) :
    ∃ all, drawTypes items prob draws i start count = some all ∧ all.length = count.sum ∧ ∀ item ∈ all, item ∈ items.flatten := by
  induction count generalizing i start with
  | nil => exact ⟨[],rfl,rfl,fun _ member => absurd member List.not_mem_nil⟩
  | cons num count ih =>
      obtain ⟨more,got,long,listed⟩ := ih (i+1) (start+num) (stocked_next stocked)
      obtain ⟨first,second,covered⟩ := stocked 0 (Nat.succ_pos _)
      rw [Nat.add_zero] at first second covered
      rw [List.getD_eq_getElem _ _ first,List.getD_eq_getElem _ _ second] at covered
      obtain ⟨full,inside⟩ := drawType_full draws covered start num
      refine ⟨drawType items[i] prob[i] draws start num ++ more,?_,?_,?_⟩
      · rw [drawTypes,List.getElem?_eq_getElem first,List.getElem?_eq_getElem second]
        dsimp only
        rw [got]
        rfl
      · rw [List.length_append,full,long,List.sum_cons]
      · intro item member
        rcases List.mem_append.mp member with here | later
        · exact List.mem_flatten.mpr ⟨_,List.getElem_mem second,inside item here⟩
        · exact listed item later

-- The keys and pages there are.
structure Page where
  key : Nat
  pageId : Nat
  keyed : key = 30 ∨ key = 60
  paged : pageId = 1 ∨ pageId = 2

def Page.items (page : Page) : List Item := ((storeItems page.key).getD (page.pageId-1) []).flatten

theorem randomItems_full (page : Page) (start : Nat) (draws : Nat → Nat) :
    ∃ all, RandomItems page.key page.pageId start draws = some all ∧ all.length = 6 ∧ ∀ item ∈ all, item ∈ page.items := by
  obtain ⟨key,pageId,rfl | rfl,rfl | rfl⟩ := page
  all_goals
    refine drawTypes_full 0 start ?_
    unfold Stocked
    decide

theorem keyOf_cases (level : Nat) : keyOf level = 30 ∨ keyOf level = 60 := by
  unfold keyOf
  split
  · exact .inl rfl
  · split
    · exact .inr rfl
    · exact .inl rfl

-- All pages: six entries for each, every one of its page.
theorem loadItems_full (level : Nat) (draws : Nat → Nat) :
    ∃ first second, loadItems (some ⟨level,true⟩) draws = some (true,first.map (Item.add 1) ++ second.map (Item.add 2)) ∧
      RandomItems (keyOf level) 1 0 draws = some first ∧ RandomItems (keyOf level) 2 6 draws = some second ∧
      first.length = 6 ∧ second.length = 6 := by
  have pages : (storeItems (keyOf level)).length = 2 ∧ pageStart (keyOf level) 1 = 0 ∧ pageStart (keyOf level) 2 = 6 := by
    rcases keyOf_cases level with key | key <;> rw [key] <;> decide
  obtain ⟨first,gotFirst,longFirst,_⟩ := randomItems_full ⟨keyOf level,1,keyOf_cases level,.inl rfl⟩ 0 draws
  obtain ⟨second,gotSecond,longSecond,_⟩ := randomItems_full ⟨keyOf level,2,keyOf_cases level,.inr rfl⟩ 6 draws
  refine ⟨first,second,?_,gotFirst,gotSecond,longFirst,longSecond⟩
  dsimp only at gotFirst gotSecond
  have both : GetRandItems (keyOf level) draws = some [(1,first),(2,second)] := by
    rw [GetRandItems,pages.1]
    change [1,2].mapM _ = _
    rw [List.mapM_cons,List.mapM_cons,List.mapM_nil,pages.2.1,pages.2.2,gotFirst,gotSecond]
    rfl
  rw [loadItems,if_neg (by simp)]
  dsimp only
  rw [both]
  simp

-- A page on its own, if it is loaded at all: one call, without a coin type.
theorem loadPageItems_call {g : Globals} {player : Player} {pageId start : Nat} {draws : Nat → Nat} {calls : List Add}
    (loaded : loadPageItems g (some player) pageId start draws = some (true,calls)) : ∃ call, calls = [call] ∧ call.coinType = .nil := by
  rw [loadPageItems] at loaded
  split at loaded
  · cases loaded
  · cases rolled : RandomItems (keyOf player.GetLevel) pageId start draws with
    | none =>
        rw [GetRandPageItems,rolled] at loaded
        cases loaded
    | some randItems =>
        rw [GetRandPageItems,rolled,Option.map_some] at loaded
        dsimp only at loaded
        split at loaded
        · cases loaded
        · cases loaded
          refine ⟨_,rfl,?_⟩
          dsimp only
          unfold tableInsert
          rw [if_neg (by intro wrong; cases wrong)]
          split <;> rfl

theorem page_never (g : Globals) (level pageId : Nat) (draws : Nat → Nat) : ¬Agrees g level pageId draws := by
  rintro ⟨_,calls,_,loaded,_,listed⟩
  obtain ⟨call,rfl,uncoined⟩ := loadPageItems_call loaded
  obtain ⟨item,_,rfl⟩ := listed call (List.mem_singleton_self call)
  cases uncoined

-- The global variable `store` is nil.
theorem page_raises : ¬Agrees ⟨.nil,false⟩ 1 1 fun _ => 0 := by
  rintro ⟨_,_,_,loaded,_⟩
  cases loaded

end GameServer.Scripts.Store
