import Mathlib.Logic.Function.Iterate

-- The boxes and gifts of ItemNormal.lua.
namespace GameServer.Scripts.ItemBoxes

inductive Call where
  | AddItem | Add | AddEquip
  deriving DecidableEq

-- What a script adds to the package of its player.
structure Grant where
  call : Call
  id : Nat
  count : Nat
  bind : Bool
  deriving DecidableEq

-- The package of a player: GetRestPackageSize of a section, GetItemUsedGrids,
-- and the calls that add to it, with none where there is no room.
structure Packages (β : Type) where
  rest : β → Nat → Nat
  used : β → Nat → Nat → Bool → Nat
  add : β → Grant → Option β

-- The random numbers by the number of those drawn before, the clock, and the
-- player. getRandOEquip gives an equipment and the count of the draws it takes.
structure World where
  random : Nat → Nat → Nat → Nat
  drawn : ∀ i low high, low ≤ high → low ≤ random i low high ∧ random i low high ≤ high
  now : Nat
  time : Nat → Nat → Nat → Nat
  level : Nat
  recharge : Nat
  getRandOEquip : Nat → Nat → Nat × Nat

-- `granted` and `lost` are the additions that found room and those that did not.
structure Stock (β : Type) where
  package : β
  granted : List Grant
  lost : List Grant
  draws : Nat

-- What a handler returns: the count used, 0 or false after the message that
-- there is no room, or false for another reason.
inductive Answer where
  | used (num : Nat)
  | zero
  | full
  | early
  | unpaid
  | nothing
  deriving DecidableEq

abbrev Lua (β : Type) := StateM (Stock β)

section handlers
variable {β : Type} (ops : Packages β) (w : World)

def give (g : Grant) : Lua β Unit := modify fun s =>
  match ops.add s.package g with
  | some package => {s with package,granted := s.granted ++ [g]}
  | none => {s with lost := s.lost ++ [g]}

def AddItem (id count : Nat) (bind : Bool) : Lua β Unit := give ops ⟨.AddItem,id,count,bind⟩
def Add (id count : Nat) (bind : Bool) : Lua β Unit := give ops ⟨.Add,id,count,bind⟩
def AddEquip (id count : Nat) (bind : Bool) : Lua β Unit := give ops ⟨.AddEquip,id,count,bind⟩

def AddItems : List (Nat × Nat) → Lua β Unit
  | [] => pure ()
  | item :: rest => do
      AddItem ops item.1 item.2 true
      AddItems rest

-- A value that some of the next random numbers give, and the count of those.
def drawing (f : Nat → Nat × Nat) : Lua β Nat := modifyGet fun s => ((f s.draws).1,{s with draws := s.draws + (f s.draws).2})

def random (low high : Nat) : Lua β Nat := drawing fun i => (w.random i low high,1)
def randOEquip : Lua β Nat := drawing (w.getRandOEquip w.level)

def times : Nat → Lua β Unit → Lua β Unit
  | 0,_ => pure ()
  | n+1,body => do
      body
      times n body

-- The first entry that p does not exceed, or the first of all.
def pick (p : Nat) (prob : List Nat) : Nat := (prob.findIdx? (p ≤ ·)).getD 0

-- What every handler starts with: the refusal of a package that is short of room.
def unlessShort (short : β → Bool) (refusal : Answer) (rest : Lua β Answer) : Lua β Answer := do
  if short (← get).package then return refusal
  rest

-- Boxes that are opened one by one.
def openAll (short : β → Bool) (refusal : Answer) (body : Lua β Unit) (num : Nat) : Lua β Answer :=
  unlessShort short refusal do
    times num body
    return .used num

-- Boxes of one item and one more that is drawn. Sizes are compared in parts of
-- 99, as the script divides exactly.
def baseBox (base checked given : Nat) (prob : List Nat) (items : List Nat) (num : Nat) : Lua β Answer :=
  openAll (fun package => decide (99*ops.rest package 0 < 99*(ops.used package base (checked*num) true + 1) + num)) .zero (do
    let p ← random w 1 100
    AddItem ops base given true
    AddItem ops (items.getD (pick p prob) 0) 1 true) num

def ItemNormal_00000405 : Nat → Lua β Answer := baseBox ops w 29 5 5 [50,100] [55,510]

def ItemNormal_00000406 (num : Nat) : Lua β Answer :=
  let reqgrids (package : β) := ops.used package 29 (10*num) true + ops.used package 15 num true
  unlessShort (fun package => decide (reqgrids package > ops.rest package 0)) .zero do
    AddItem ops 29 (10*num) true
    AddItem ops 15 num true
    return .used num

def ItemNormal_00000407 : Nat → Lua β Answer := baseBox ops w 29 15 15 [50,100] [56,57]
def ItemNormal_00000408 : Nat → Lua β Answer := baseBox ops w 29 20 15 [50,100] [503,500]
def ItemNormal_00000409 : Nat → Lua β Answer := baseBox ops w 133 2 2 [33,66,100] [55,510,502]
def ItemNormal_00000410 : Nat → Lua β Answer := baseBox ops w 133 3 3 [33,66,100] [56,511,15]
def ItemNormal_00000411 : Nat → Lua β Answer := baseBox ops w 133 4 4 [33,66,100] [503,514,512]
def ItemNormal_00000412 : Nat → Lua β Answer := baseBox ops w 133 6 6 [33,66,100] [515,507,509]

def xinfaBox (last : Nat) (num : Nat) : Lua β Answer :=
  openAll (fun package => decide (99*ops.rest package 0 < 99*2 + 2*num)) .zero (do
    let xinfa ← random w 6000 last
    let p ← random w 1 100
    AddItem ops xinfa 1 true
    AddItem ops ([515,507,509].getD (pick p [33,66,100]) 0) 1 true) num

def ItemNormal_00000413 : Nat → Lua β Answer := xinfaBox ops w 6001
def ItemNormal_00000414 : Nat → Lua β Answer := xinfaBox ops w 6002
def ItemNormal_00000415 : Nat → Lua β Answer := xinfaBox ops w 6003
def ItemNormal_00000416 : Nat → Lua β Answer := xinfaBox ops w 6005

-- A gift from the start of a day on, doubled on that day.
def dated (start : Nat) (gift : Nat → Lua β Answer) : Lua β Answer :=
  if w.now ≥ start then gift (if w.now < start + 86400 then 2 else 1) else return .early

-- Gifts that look for room before they look at the date.
def checkedGift (sizes : List (Nat × Nat)) (start : Nat) (num : Nat) (gift : Nat → Lua β Unit) : Lua β Answer :=
  unlessShort (fun package => sizes.any fun size => decide (ops.rest package size.1 < size.2)) .full <|
    dated w start fun factor => do
      gift factor
      return .used num

def giftWithin (size num : Nat) (gift : Lua β Unit) : Lua β Answer :=
  unlessShort (fun package => decide (ops.rest package 0 < size)) .full do
    gift
    return .used num

-- And those that look at the date first.
def datedGift (start : Nat) (num : Nat) (gift : Nat → Lua β Unit) : Lua β Answer :=
  dated w start fun factor => giftWithin ops (3 + 6*factor) num (gift factor)

def ItemNormal_00000417 (num : Nat) : Lua β Answer :=
  checkedGift ops w [(0,4)] (w.time 2012 1 21) num fun factor => AddItems ops [(56,6*factor),(57,6*factor),(503,6*factor),(500,6*factor)]

def ItemNormal_00000418 (num : Nat) : Lua β Answer :=
  datedGift ops w (w.time 2012 1 22) num fun factor => do
    AddItems ops [(56,6*factor),(57,6*factor),(514,6*factor)]
    Add ops 133 (6*factor) true

def ItemNormal_00000419 (num : Nat) : Lua β Answer :=
  datedGift ops w (w.time 2012 1 23) num fun factor => do
    AddItems ops [(56,6*factor),(57,6*factor),(515,3*factor)]
    Add ops 133 (6*factor) true

def ItemNormal_00000420 (num : Nat) : Lua β Answer :=
  checkedGift ops w [(0,3)] (w.time 2012 1 24) num fun factor => AddItems ops [(56,6*factor),(57,6*factor),(511,6*factor)]

def ItemNormal_00000421 (num : Nat) : Lua β Answer :=
  checkedGift ops w [(0,3)] (w.time 2012 1 25) num fun factor => AddItems ops [(56,6*factor),(57,6*factor),(512,6*factor)]

def ItemNormal_00000422 (num : Nat) : Lua β Answer :=
  checkedGift ops w [(0,3)] (w.time 2012 1 26) num fun factor => AddItems ops [(56,6*factor),(57,6*factor),(508,6*factor)]

def ItemNormal_00000423 (num : Nat) : Lua β Answer :=
  checkedGift ops w [(0,3)] (w.time 2012 1 27) num fun factor => AddItems ops [(56,6*factor),(57,6*factor),(506,6*factor)]

def ItemNormal_00000424 (num : Nat) : Lua β Answer :=
  checkedGift ops w [(0,3)] (w.time 2012 1 28) num fun factor => AddItems ops [(56,6*factor),(57,6*factor),(30,6*factor)]

def ItemNormal_00000425 (num : Nat) : Lua β Answer :=
  checkedGift ops w [(0,4)] (w.time 2012 1 29) num fun factor => AddItems ops [(56,6*factor),(57,6*factor),(507,3*factor),(509,3*factor)]

-- One more thing drawn, and a second one on the day itself.
def drawnGift (draw : Lua β Unit) (factor : Nat) : Lua β Unit := do
  AddItems ops [(56,6*factor),(57,6*factor)]
  draw
  if factor = 2 then draw

def ItemNormal_00000426 (num : Nat) : Lua β Answer :=
  checkedGift ops w [(0,4)] (w.time 2012 1 30) num <| drawnGift ops do
    let equip ← randOEquip w
    AddEquip ops equip 1 false

def gem : List Nat := [5005,5015,5025,5035,5045]

def ItemNormal_00000427 (num : Nat) : Lua β Answer :=
  checkedGift ops w [(0,4),(3,4)] (w.time 2012 2 4) num <| drawnGift ops do
    let g ← random w 1 gem.length
    AddItem ops (gem.getD (g - 1) 0) 1 true

def trumps : List (List Nat) :=
  [[1600,1601,1602],
    [1604,1605,1606],
    [1603,1608,1609],
    [1610,1614,1615],
    [1612,1616,1607,1611],
    [200,201,202,203,204,205,206,207,208],
    [209,210,211,212,213,214,215,216,217,218,219,220,221,222,223,224,103,104,105,106,107,108,109,110],
    [228,229,230,231,232,233,234,235,236,237,238,239,240,241,242,91,92,93,94,95,96,97,98,99,100,101,102],
    [243,244,245,246,247,248,249,250,251,252,253,254,255,256,257,258,259,260,261,262,263,264,265,266,267,268,269],
    [111,112,113,114,115,116,117,118,119,271,272,273,274,275,276,277,278,279,280,281,282,283,284,285,286,287,288,289,290,291,292,293,294,
      295,296,297],
    [120,121,122,123,124,125,126,127,128]]

-- The row of a level, five levels to each from 40 up to 90.
def trumpRow (lvl : Nat) : Nat :=
  let lvl := if lvl < 40 then 40 else lvl
  if lvl ≤ 44 then 1
  else if lvl ≤ 49 then 2
  else if lvl ≤ 54 then 3
  else if lvl ≤ 59 then 4
  else if lvl ≤ 64 then 5
  else if lvl ≤ 69 then 6
  else if lvl ≤ 74 then 7
  else if lvl < 80 then 8
  else if lvl < 85 then 9
  else if lvl < 90 then 10
  else 11

def ItemNormal_00000428 (num : Nat) : Lua β Answer :=
  checkedGift ops w [(0,4)] (w.time 2012 2 6) num <| drawnGift ops do
    let items := trumps.getD (trumpRow w.level - 1) []
    let m ← random w 1 items.length
    Add ops (items.getD (m - 1) 0) 1 true

-- Boxes of one of some items and, one time in five, a further one.
def luckyBox (sections : List Nat) (items : List (Nat × Nat)) (bind : Bool) (luck : Nat) (num : Nat) : Lua β Answer :=
  openAll (fun package => sections.any fun part => decide (99*ops.rest package part < 99*2 + 2*num*2)) .full (do
    let i ← random w 1 items.length
    let t ← random w 1 100
    let item := items.getD (i - 1) (0,0)
    AddItem ops item.1 item.2 bind
    if t ≤ 20 then AddItem ops luck 1 bind) num

def ItemNormal_00000429 : Nat → Lua β Answer :=
  luckyBox ops w [0,3]
    [(502,1),(502,1),(5002,1),(5012,1),(5022,1),(5032,1),(5042,1),(5052,1),(5062,1),(5072,1),(5082,1),(5092,1),(5102,1),(5112,1),(5122,1),
      (5132,1),(5142,1),(15,1),(510,1),(55,2)] true 6009

def ItemNormal_00000430 : Nat → Lua β Answer := luckyBox ops w [0] [(56,1),(57,1),(511,2),(16,1),(500,1),(15,1)] false 6006

def ItemNormal_00000431 : Nat → Lua β Answer := luckyBox ops w [0] [(503,1),(514,2),(512,2),(16,2),(508,2),(506,2),(517,2)] false 6010

-- The first entry up to which the weights come to i.
def weighed (i v : Nat) : List (Nat × Nat × Nat) → Option (Nat × Nat)
  | [] => none
  | (id,count,weight) :: rest => if i ≤ v + weight then some (id,count) else weighed i (v + weight) rest

def weighedItems : List (Nat × Nat × Nat) :=
  [(515,1,9),(47,1,10),(501,4,18),(513,4,18),(16,6,18),(5064,1,3),(5074,1,3),(5084,1,3),(5094,1,3),(5104,1,3),(5114,1,3),(5124,1,3),
    (5134,1,3),(5144,1,3)]

def ItemNormal_00000432 (num : Nat) : Lua β Answer :=
  openAll (fun package => [0,3].any fun part => decide (99*ops.rest package part < 99*2 + 2*num*6)) .full (do
    let i ← random w 1 100
    let t ← random w 1 100
    let r ← random w 1 100
    match weighed i 0 weighedItems with
    | some item => AddItem ops item.1 item.2 false
    | none => pure ()
    if t ≤ 20 then
      if r ≤ 50 then AddItem ops 6007 1 false else AddItem ops 6008 1 false) num

def needsize : List Nat := [5,1,1,2,3,4,4,4,4,5,6,8,20,20,30,40]

def vipitems : List (List (Nat × Nat)) :=
  [[(56,2),(503,10),(514,10),(507,2),(509,2),(0,0)],
    [(56,2),(0,0),(0,0),(0,0),(0,0),(0,0)],
    [(56,10),(0,0),(0,0),(0,0),(0,0),(0,0)],
    [(56,10),(503,5),(0,0),(0,0),(0,0),(0,0)],
    [(56,10),(503,10),(514,10),(0,0),(0,0),(0,0)],
    [(503,20),(515,5),(507,2),(509,2),(0,0),(0,0)],
    [(503,30),(515,15),(507,10),(509,10),(0,0),(0,0)],
    [(503,30),(515,20),(507,10),(509,10),(0,0),(0,0)],
    [(503,50),(515,30),(507,30),(509,30),(0,0),(0,0)],
    [(503,100),(515,30),(507,30),(509,30),(0,0),(0,0)],
    [(503,200),(515,50),(507,50),(509,50),(0,0),(0,0)],
    [(503,300),(515,80),(507,50),(509,50),(0,0),(0,0)],
    [(503,800),(515,240),(507,150),(509,150),(0,0),(0,0)],
    [(503,800),(515,280),(507,150),(509,150),(0,0),(0,0)],
    [(503,1000),(515,500),(507,600),(509,600),(0,0),(0,0)],
    [(503,1500),(515,500),(507,700),(509,700),(0,0),(0,0)]]

def ItemNormal_VIP (iid num : Nat) : Lua β Answer := do
  let lvl := iid - 449 + 1
  if iid = 449 ∧ w.recharge = 0 then return .unpaid
  giftWithin ops (needsize.getD (lvl - 1) 0 + 1) num do
    AddItems ops ((vipitems.getD (lvl - 1) []).takeWhile fun item => item.1 ≠ 0)
    if lvl ≥ 6 then
      let equip ← randOEquip w
      AddEquip ops equip 1 false

-- The entries of ItemNormal_Table for these handlers; VIP takes its own number.
def ItemNormal_Table : List (Nat × (Nat → Lua β Answer)) :=
  [(405,ItemNormal_00000405 ops w),(406,ItemNormal_00000406 ops),(407,ItemNormal_00000407 ops w),(408,ItemNormal_00000408 ops w),
    (409,ItemNormal_00000409 ops w),(410,ItemNormal_00000410 ops w),(411,ItemNormal_00000411 ops w),(412,ItemNormal_00000412 ops w),
    (413,ItemNormal_00000413 ops w),(414,ItemNormal_00000414 ops w),(415,ItemNormal_00000415 ops w),(416,ItemNormal_00000416 ops w),
    (417,ItemNormal_00000417 ops w),(418,ItemNormal_00000418 ops w),(419,ItemNormal_00000419 ops w),(420,ItemNormal_00000420 ops w),
    (421,ItemNormal_00000421 ops w),(422,ItemNormal_00000422 ops w),(423,ItemNormal_00000423 ops w),(424,ItemNormal_00000424 ops w),
    (425,ItemNormal_00000425 ops w),(426,ItemNormal_00000426 ops w),(427,ItemNormal_00000427 ops w),(428,ItemNormal_00000428 ops w),
    (429,ItemNormal_00000429 ops w),(430,ItemNormal_00000430 ops w),(431,ItemNormal_00000431 ops w),(432,ItemNormal_00000432 ops w)] ++
  (List.range 16).map fun k => (449 + k,ItemNormal_VIP ops w (449 + k))

def RunItemNormalUse (itemId : Nat) (num : Int) : Lua β Answer :=
  if num ≤ 0 then return .nothing
  else
    match (ItemNormal_Table ops w).lookup itemId with
    | none => return .nothing
    | some trigger => trigger num.toNat

end handlers

section opening
variable {β : Type} {short : β → Bool} {refusal : Answer} {rest : Lua β Answer} {s : Stock β}

theorem unlessShort_short (without : short s.package = true) : unlessShort short refusal rest s = (refusal,s) := by
  show (if short s.package = true then pure refusal else rest : Lua β Answer) s = _
  rw [if_pos without]
  rfl

theorem unlessShort_enough (enough : ¬ short s.package = true) : unlessShort short refusal rest s = rest s := by
  show (if short s.package = true then pure refusal else rest : Lua β Answer) s = _
  rw [if_neg enough]

theorem openAll_short {body : Lua β Unit} {num : Nat} (without : short s.package = true) : openAll short refusal body num s = (refusal,s) :=
  unlessShort_short without

end opening

section issuing
variable {β : Type} {ops : Packages β}

-- The additions of a list one after the other.
def issue (ops : Packages β) (grants : List Grant) (s : Stock β) : Stock β := grants.foldl (fun s g => (give ops g s).2) s

-- All of them find room.
def Room (ops : Packages β) : β → List Grant → Prop
  | _,[] => True
  | package,g :: rest => ∃ package', ops.add package g = some package' ∧ Room ops package' rest

theorem issue_append (first second : List Grant) (s : Stock β) : issue ops (first ++ second) s = issue ops second (issue ops first s) :=
  List.foldl_append ..

theorem give_some {g : Grant} {s : Stock β} {package : β} (found : ops.add s.package g = some package) :
    (give ops g s).2 = {s with package,granted := s.granted ++ [g]} := by
  show (match ops.add s.package g with | some package => _ | none => _ : Stock β) = _
  rw [found]

theorem give_none {g : Grant} {s : Stock β} (full : ops.add s.package g = none) : (give ops g s).2 = {s with lost := s.lost ++ [g]} := by
  show (match ops.add s.package g with | some package => _ | none => _ : Stock β) = _
  rw [full]

theorem give_draws (g : Grant) (s : Stock β) (i : Nat) : (give ops g {s with draws := i}).2 = {(give ops g s).2 with draws := i} := by
  rcases found : ops.add s.package g with _ | package
  · rw [give_none found,give_none (s := {s with draws := i}) found]
  · rw [give_some found,give_some (s := {s with draws := i}) found]

theorem issue_draws (grants : List Grant) (s : Stock β) (i : Nat) : issue ops grants {s with draws := i} = {issue ops grants s with draws := i} := by
  induction grants generalizing s with
  | nil => rfl
  | cons g rest ih =>
      show issue ops rest (give ops g {s with draws := i}).2 = _
      rw [give_draws,ih]
      rfl

-- What was lost stays lost.
theorem lost_grows (ops : Packages β) (grants : List Grant) (s : Stock β) : s.lost <+: (issue ops grants s).lost := by
  induction grants generalizing s with
  | nil => exact List.prefix_rfl
  | cons g rest ih =>
      refine List.IsPrefix.trans ?_ (ih (give ops g s).2)
      rcases found : ops.add s.package g with _ | package
      · rw [give_none found]
        exact List.prefix_append ..
      · have same := congrArg Stock.lost (give_some found)
        refine ⟨[],?_⟩
        rw [List.append_nil]
        exact same.symm

theorem issue_room {grants : List Grant} {s : Stock β} : (issue ops grants s).lost = s.lost ↔ Room ops s.package grants := by
  induction grants generalizing s with
  | nil => exact ⟨fun _ => trivial,fun _ => rfl⟩
  | cons g rest ih =>
      show (issue ops rest (give ops g s).2).lost = s.lost ↔ ∃ package', _ ∧ _
      rcases found : ops.add s.package g with _ | package
      · rw [give_none found]
        constructor
        · intro same
          have longer := (lost_grows ops rest {s with lost := s.lost ++ [g]}).length_le
          rw [same,List.length_append,List.length_singleton] at longer
          exact absurd longer (Nat.not_succ_le_self _)
        · intro ⟨_,impossible,_⟩
          cases impossible
      · rw [give_some found]
        have tail := ih (s := {s with package,granted := s.granted ++ [g]})
        constructor
        · intro same
          exact ⟨package,rfl,tail.mp same⟩
        · intro ⟨package',same,later⟩
          cases same
          exact tail.mpr later

theorem issue_granted {grants : List Grant} {s : Stock β} (room : Room ops s.package grants) :
    (issue ops grants s).granted = s.granted ++ grants := by
  induction grants generalizing s with
  | nil => exact (List.append_nil _).symm
  | cons g rest ih =>
      obtain ⟨package,found,later⟩ := room
      show (issue ops rest (give ops g s).2).granted = _
      rw [give_some found,ih later,List.append_assoc]
      rfl

-- A body that issues what its next draws say.
structure Issues (ops : Packages β) (body : Lua β Unit) (round : Nat → List Grant) (taken : Nat → Nat) : Prop where
  run : ∀ s, body s = ((),{issue ops (round s.draws) s with draws := s.draws + taken s.draws})

section rules
variable {w : World} {body next : Lua β Unit} {round later : Nat → List Grant} {taken more : Nat → Nat}

theorem issues_pure : Issues ops (pure ()) (fun _ => []) (fun _ => 0) := ⟨fun _ => rfl⟩

theorem issues_give (g : Grant) : Issues ops (give ops g) (fun _ => [g]) (fun _ => 0) := by
  constructor
  intro s
  rw [show issue ops [g] s = (give ops g s).2 from rfl]
  exact congrArg (Prod.mk ()) (give_draws g s s.draws)

theorem issues_then (first : Issues ops body round taken) (second : Issues ops next later more) :
    Issues ops (do body; next) (fun i => round i ++ later (i + taken i)) (fun i => taken i + more (i + taken i)) := by
  constructor
  intro s
  show next (body s).2 = _
  rw [first.run,second.run,issue_append,issue_draws]
  dsimp only
  rw [Nat.add_assoc]

theorem issues_drawing (f : Nat → Nat × Nat) {body : Nat → Lua β Unit} {round : Nat → Nat → List Grant} {taken : Nat → Nat → Nat}
    (each : ∀ value, Issues ops (body value) (round value) (taken value)) :
    Issues ops (do body (← drawing f)) (fun i => round (f i).1 (i + (f i).2)) (fun i => (f i).2 + taken (f i).1 (i + (f i).2)) := by
  constructor
  intro s
  show body _ {s with draws := s.draws + (f s.draws).2} = _
  rw [(each _).run,issue_draws]
  dsimp only
  rw [Nat.add_assoc]

-- The rounds of a loop, one after the other.
def rounds (round : Nat → List Grant) (taken : Nat → Nat) : Nat → Nat → List Grant
  | 0,_ => []
  | n+1,i => round i ++ rounds round taken n (i + taken i)

def takes (taken : Nat → Nat) : Nat → Nat → Nat
  | 0,_ => 0
  | n+1,i => taken i + takes taken n (i + taken i)

theorem issues_times (each : Issues ops body round taken) (n : Nat) : Issues ops (times n body) (rounds round taken n) (takes taken n) := by
  induction n with
  | zero => exact issues_pure
  | succ n ih => exact issues_then each ih

theorem openAll_issues {short : β → Bool} {refusal : Answer} {num : Nat} {s : Stock β} (each : Issues ops body round taken)
    (enough : ¬ short s.package = true) : ∃ draws, openAll short refusal body num s =
      (.used num,{issue ops (rounds round taken num s.draws) s with draws}) := by
  have opened : openAll short refusal body num s = (.used num,(times num body s).2) := unlessShort_enough enough
  rw [opened,(issues_times each num).run s]
  exact ⟨_,rfl⟩

end rules

theorem i406_run {num : Nat} {s : Stock β} (enough : ops.used s.package 29 (10*num) true + ops.used s.package 15 num true ≤ ops.rest s.package 0) :
    ItemNormal_00000406 ops num s = (.used num,issue ops [⟨.AddItem,29,10*num,true⟩,⟨.AddItem,15,num,true⟩] s) := by
  unfold ItemNormal_00000406
  rw [unlessShort_enough]
  · rfl
  · simpa using enough

theorem i406_short {num : Nat} {s : Stock β} (short : ¬ ops.used s.package 29 (10*num) true + ops.used s.package 15 num true ≤ ops.rest s.package 0) :
    ItemNormal_00000406 ops num s = (.zero,s) := by
  unfold ItemNormal_00000406
  rw [unlessShort_short]
  simpa using short

end issuing

end GameServer.Scripts.ItemBoxes
