import GameServer.Library.Tables
import Mathlib.Algebra.Ring.Int.Defs

namespace GameServer.Scripts.ParseMapInfo
open Tables

-- A tile that a tileset lists, with properties["force"].
structure Tile where
  id : Int
  force : Option String
  deriving DecidableEq, Repr

structure Tileset where
  name : String
  firstgid : Int
  tiles : List Tile
  deriving DecidableEq, Repr

structure Layer where
  type : String
  name : String
  data : List Int
  deriving DecidableEq, Repr

structure MapTable where
  width : Nat
  height : Nat
  layers : List Layer
  tilesets : List Tileset
  deriving DecidableEq, Repr

section source
variable (tonumber : String → Option Int) (m : MapTable)

def GetLayer (name : String) : Option (List Int) :=
  (m.layers.find? fun layer => layer.type = "tilelayer" ∧ layer.name = name).map Layer.data

def GetForceInfo : Option (List Int) := GetLayer m "force"
def GetMapInfo : Option (List Int) := GetLayer m "map"

-- tonumber(nil) is nil.
def forceNumber (tile : Tile) : Option Int :=
  tile.force.bind fun force => if force = "auto" then some 0 else tonumber force

-- The assignments of the two loops, in their order.
def GetForce2Id : Int → Option Int :=
  assigned (m.tilesets.flatMap fun tileset =>
    if tileset.name = "tiles" then tileset.tiles.map fun tile => (tileset.firstgid+tile.id,forceNumber tonumber tile) else [])

def GetForm2Id : Int → Option Int :=
  assigned (m.tilesets.flatMap fun tileset =>
    if tileset.name = "map" then tileset.tiles.map fun tile => (tile.id+tileset.firstgid,some (tile.id+2)) else [])

def mapValue (formWithId : Int → Option Int) (force : List Int) (i : Nat) (tile : Int) : Option Int :=
  if tile = 0 ∧ force[i]? = some 0 then some 0
  else if tile = 0 then some 1
  else formWithId tile

def forceValue (forceWithId : Int → Option Int) (force : Int) : Option Int := if force = 0 then some 0 else forceWithId force

-- `none`: a layer is indexed that is not there.
def GetMap : Option (List Int) :=
  (GetMapInfo m).bind fun map =>
    if GetForceInfo m = none ∧ 0 ∈ map then none
    else
      let force := (GetForceInfo m).getD []
      some ((map.mapIdx (mapValue (GetForm2Id m) force)).foldl insert [(m.width : Int),(m.height : Int)])

def GetForce : Option (List Int) :=
  (GetForceInfo m).map fun force => (force.map (forceValue (GetForce2Id tonumber m))).foldl insert []

end source

-- The arrays after the two memsets and the two copies: `none` if the sizes
-- differ, or for a write behind _mapCamp.
def InitMapFight (x y : UInt8) (tileInfo CampInfo : List UInt8) : Option (List UInt8 × List UInt8) :=
  let size := x.toNat*y.toNat
  if size ≠ tileInfo.length ∨ size < CampInfo.length then none
  else some (tileInfo,CampInfo++List.replicate (size-CampInfo.length) 0)

-- A map with the two layers, in which every cell has a tile.
structure Description extends MapTable where
  map : List Int
  force : List Int
  mapFound : GetMapInfo toMapTable = some map
  forceFound : GetForceInfo toMapTable = some force
  mapSize : map.length = width*height
  forceSize : force.length = width*height

namespace Description
variable (tonumber : String → Option Int) (d : Description)

def cells : Nat := d.width*d.height

def form (i : Nat) : Option Int := d.map[i]?.bind (mapValue (GetForm2Id d.toMapTable) d.force i)
def camp (i : Nat) : Option Int := d.force[i]?.bind (forceValue (GetForce2Id tonumber d.toMapTable))

structure Aligned : Prop where
  map : ∃ Map, GetMap d.toMapTable = some Map ∧ Map.length = 2+d.cells ∧
    ∀ i < d.cells, ∃ value, d.form i = some value ∧ Map[2+i]? = some value
  force : ∃ Force, GetForce tonumber d.toMapTable = some Force ∧ Force.length = d.cells ∧
    ∀ i < d.cells, ∃ value, d.camp tonumber i = some value ∧ Force[i]? = some value
  fight : ∀ Map Force (loaded : Int → UInt8) x y ground camps, GetMap d.toMapTable = some Map → GetForce tonumber d.toMapTable = some Force →
    InitMapFight x y ((Map.drop 2).map loaded) (Force.map loaded) = some (ground,camps) →
      ∀ i < d.cells, ∃ tile force, d.form i = some tile ∧ d.camp tonumber i = some force ∧
        ground[i]? = some (loaded tile) ∧ camps[i]? = some (loaded force)

-- The gid is of a tile that a tileset of landforms lists.
def Formed (gid : Int) : Prop := ∃ tileset ∈ d.tilesets, tileset.name = "map" ∧ ∃ tile ∈ tileset.tiles, tile.id+tileset.firstgid = gid

-- The last tile of the gid that a tileset of forces lists has a number.
def Numbered (gid : Int) : Prop :=
  ∃ front number back, (d.tilesets.flatMap fun tileset =>
      if tileset.name = "tiles" then tileset.tiles.map fun tile => (tileset.firstgid+tile.id,forceNumber tonumber tile) else []) =
    front++(gid,some number) :: back ∧ ∀ later ∈ back, later.1 ≠ gid

-- Every gid in use is in the range of the tileset of its layer, which goes up
-- to the next tileset.
def InRange : Prop :=
  (∀ gid ∈ d.map, gid ≠ 0 → ∃ tileset ∈ d.tilesets, tileset.name = "map" ∧ tileset.firstgid ≤ gid ∧
    ∀ other ∈ d.tilesets, tileset.firstgid < other.firstgid → gid < other.firstgid) ∧
  (∀ gid ∈ d.force, gid ≠ 0 → ∃ tileset ∈ d.tilesets, tileset.name = "tiles" ∧ tileset.firstgid ≤ gid ∧
    ∀ other ∈ d.tilesets, tileset.firstgid < other.firstgid → gid < other.firstgid)

end Description

variable {tonumber : String → Option Int} {d : Description}

theorem form_iff (d : Description) (gid : Int) : (GetForm2Id d.toMapTable gid).isSome ↔ d.Formed gid := by
  have entries (entry : Int × Option Int) : (entry ∈ d.tilesets.flatMap fun tileset =>
      if tileset.name = "map" then tileset.tiles.map fun tile => (tile.id+tileset.firstgid,some (tile.id+2)) else []) ↔
      ∃ tileset ∈ d.tilesets, tileset.name = "map" ∧ ∃ tile ∈ tileset.tiles, (tile.id+tileset.firstgid,some (tile.id+2)) = entry := by
    rw [List.mem_flatMap]
    refine exists_congr fun tileset => and_congr_right fun _ => ?_
    by_cases named : tileset.name = "map"
    · simp only [named,if_true,List.mem_map,true_and]
    · simp [named]
  rw [GetForm2Id,assigned_isSome_iff]
  · constructor
    · intro ⟨entry,member,same⟩
      obtain ⟨tileset,listed,named,tile,inside,rfl⟩ := (entries entry).mp member
      exact ⟨tileset,listed,named,tile,inside,same⟩
    · intro ⟨tileset,listed,named,tile,inside,same⟩
      exact ⟨_,(entries _).mpr ⟨tileset,listed,named,tile,inside,rfl⟩,same⟩
  · intro entry member
    obtain ⟨_,_,_,_,_,rfl⟩ := (entries entry).mp member
    rfl

theorem camp_iff (tonumber : String → Option Int) (d : Description) (gid : Int) :
    (GetForce2Id tonumber d.toMapTable gid).isSome ↔ d.Numbered tonumber gid := by
  rw [Option.isSome_iff_exists]
  simp only [GetForce2Id,assigned_some_iff,Description.Numbered]
  constructor
  · intro ⟨number,front,back,parts⟩
    exact ⟨front,number,back,parts⟩
  · intro ⟨front,number,back,parts⟩
    exact ⟨number,front,back,parts⟩

theorem getMap_eq (d : Description) : GetMap d.toMapTable =
    some ((d.map.mapIdx (mapValue (GetForm2Id d.toMapTable) d.force)).foldl insert [(d.width : Int),(d.height : Int)]) := by
  rw [GetMap,d.mapFound,d.forceFound,Option.bind_some,if_neg (by simp)]
  rfl

theorem getForce_eq (tonumber : String → Option Int) (d : Description) : GetForce tonumber d.toMapTable =
    some ((d.force.map (forceValue (GetForce2Id tonumber d.toMapTable))).foldl insert []) := by
  rw [GetForce,d.forceFound]
  rfl

theorem forms_iff (d : Description) : (∀ cell ∈ d.map.mapIdx (mapValue (GetForm2Id d.toMapTable) d.force), cell.isSome) ↔
    ∀ gid ∈ d.map, gid ≠ 0 → d.Formed gid := by
  have value (i : Nat) (gid : Int) : (mapValue (GetForm2Id d.toMapTable) d.force i gid).isSome ↔ (gid ≠ 0 → d.Formed gid) := by
    rw [← form_iff,mapValue]
    by_cases zero : gid = 0
    · split
      · simp [zero]
      · simp [zero]
    · simp [zero]
  constructor
  · intro all gid member
    obtain ⟨i,inside,rfl⟩ := List.getElem_of_mem member
    exact (value i _).mp (all _ (List.mem_mapIdx.mpr ⟨i,inside,rfl⟩))
  · intro every cell member
    obtain ⟨i,inside,rfl⟩ := List.mem_mapIdx.mp member
    exact (value i _).mpr (every _ (List.getElem_mem inside))

theorem camps_iff (tonumber : String → Option Int) (d : Description) :
    (∀ cell ∈ d.force.map (forceValue (GetForce2Id tonumber d.toMapTable)), cell.isSome) ↔ ∀ gid ∈ d.force, gid ≠ 0 → d.Numbered tonumber gid := by
  rw [List.forall_mem_map]
  refine forall_congr' fun gid => forall_congr' fun _ => ?_
  rw [← camp_iff,forceValue]
  by_cases zero : gid = 0
  · simp [zero]
  · simp [zero]

theorem form_at (d : Description) (i : Nat) :
    (d.map.mapIdx (mapValue (GetForm2Id d.toMapTable) d.force))[i]? = some (d.form i) ∨
      (d.map.mapIdx (mapValue (GetForm2Id d.toMapTable) d.force))[i]? = none := by
  rw [List.getElem?_mapIdx,Description.form]
  cases d.map[i]? with
  | none => exact .inr rfl
  | some gid => exact .inl rfl

theorem camp_at (tonumber : String → Option Int) (d : Description) (i : Nat) :
    (d.force.map (forceValue (GetForce2Id tonumber d.toMapTable)))[i]? = some (d.camp tonumber i) ∨
      (d.force.map (forceValue (GetForce2Id tonumber d.toMapTable)))[i]? = none := by
  rw [List.getElem?_map,Description.camp]
  cases d.force[i]? with
  | none => exact .inr rfl
  | some gid => exact .inl rfl

theorem places (d : Description) (cells : List (Option Int)) (value : Nat → Option Int) (front : Nat) (table : List Int)
    (same : ∀ i, cells[i]? = some (value i) ∨ cells[i]? = none) (long : cells.length = d.cells) :
    Placed front cells table ↔ table.length = front+d.cells ∧ ∀ i < d.cells, ∃ v, value i = some v ∧ table[front+i]? = some v := by
  unfold Placed
  rw [long]
  refine and_congr_right fun _ => forall_congr' fun i => forall_congr' fun inside => exists_congr fun v => and_congr_left fun _ => ?_
  obtain here | beyond := same i
  · rw [here,Option.some.injEq]
  · exact absurd (List.getElem?_eq_none_iff.mp beyond) (by omega)

-- The camps may be fewer than the cells; what is missing are zeros.
theorem initMapFight_some {x y : UInt8} {tileInfo CampInfo ground camps : List UInt8}
    (fight : InitMapFight x y tileInfo CampInfo = some (ground,camps)) : tileInfo = ground ∧ ∃ zeros, CampInfo++zeros = camps := by
  dsimp only [InitMapFight] at fight
  split at fight
  · cases fight
  · cases fight
    exact ⟨rfl,_,rfl⟩

-- Past the front, a value of the table is a value of what is loaded.
theorem loaded_at {loaded : Int → UInt8} {table : List Int} {front i : Nat} {value : Int} (here : table[front+i]? = some value) :
    ((table.drop front).map loaded)[i]? = some (loaded value) := by
  rw [List.getElem?_map,List.getElem?_drop,here]
  rfl

theorem aligned_iff (tonumber : String → Option Int) (d : Description) :
    d.Aligned tonumber ↔ (∀ gid ∈ d.map, gid ≠ 0 → d.Formed gid) ∧ ∀ gid ∈ d.force, gid ≠ 0 → d.Numbered tonumber gid := by
  have forms := places d (d.map.mapIdx (mapValue (GetForm2Id d.toMapTable) d.force)) d.form 2
    ((d.map.mapIdx (mapValue (GetForm2Id d.toMapTable) d.force)).foldl insert [(d.width : Int),(d.height : Int)]) (form_at d)
    (by rw [List.length_mapIdx,d.mapSize]; rfl)
  have camps := places d (d.force.map (forceValue (GetForce2Id tonumber d.toMapTable))) (d.camp tonumber) 0
    ((d.force.map (forceValue (GetForce2Id tonumber d.toMapTable))).foldl insert []) (camp_at tonumber d)
    (by rw [List.length_map,d.forceSize]; rfl)
  rw [← forms_iff,← camps_iff,← placed_iff _ [(d.width : Int),(d.height : Int)],← placed_iff _ []]
  rw [show [(d.width : Int),(d.height : Int)].length = 2 from rfl,show ([] : List Int).length = 0 from rfl,forms,camps]
  constructor
  · intro aligned
    obtain ⟨Map,read,mapPlaces⟩ := aligned.map
    obtain ⟨Force,scanned,forcePlaces⟩ := aligned.force
    cases (getMap_eq d).symm.trans read
    cases (getForce_eq tonumber d).symm.trans scanned
    refine ⟨mapPlaces,?_⟩
    simpa only [Nat.zero_add] using forcePlaces
  · intro ⟨mapPlaces,forcePlaces⟩
    simp only [Nat.zero_add] at forcePlaces
    refine ⟨⟨_,getMap_eq d,mapPlaces⟩,⟨_,getForce_eq tonumber d,forcePlaces⟩,?_⟩
    intro Map Force loaded x y ground camps read scanned fight i inside
    cases (getMap_eq d).symm.trans read
    cases (getForce_eq tonumber d).symm.trans scanned
    obtain ⟨tile,formed,atMap⟩ := mapPlaces.2 i inside
    obtain ⟨force,numbered,atForce⟩ := forcePlaces.2 i inside
    refine ⟨tile,force,formed,numbered,?_⟩
    obtain ⟨rfl,zeros,rfl⟩ := initMapFight_some fight
    refine ⟨loaded_at atMap,?_⟩
    have before : i < (((d.force.map (forceValue (GetForce2Id tonumber d.toMapTable))).foldl insert []).map loaded).length := by
      rw [List.length_map]
      exact (List.getElem?_eq_some_iff.mp atForce).1
    rw [List.getElem?_append_left before,List.getElem?_map,atForce]
    rfl


-- The second landform in use is in the range but not listed: the third cell's
-- value is where the second's belongs.
def unlisted : Description where
  width := 3
  height := 1
  layers := [⟨"tilelayer","map",[96,98,97]⟩,⟨"tilelayer","force",[0,0,0]⟩]
  tilesets := [⟨"tiles",1,[⟨0,some "auto"⟩,⟨1,some "1"⟩]⟩,⟨"map",96,[⟨0,none⟩,⟨1,none⟩,⟨3,none⟩]⟩]
  map := [96,98,97]
  force := [0,0,0]
  mapFound := by decide
  forceFound := by decide
  mapSize := rfl
  forceSize := rfl

theorem unlisted_shifts : ¬ ∀ (tonumber : String → Option Int) (d : Description), d.InRange → d.Aligned tonumber := by
  intro every
  have inRange : unlisted.InRange := by
    constructor
    · decide
    · decide
  obtain ⟨Map,read,length,_⟩ := (every (fun _ => none) unlisted inRange).map
  have values : GetMap unlisted.toMapTable = some [3,1,2,3] := by decide
  cases values.symm.trans read
  cases length

end GameServer.Scripts.ParseMapInfo
