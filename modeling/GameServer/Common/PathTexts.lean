import GameServer.Common.PathPlaces

namespace GameServer.Common.PathTexts
open GameServer.Common.Paths GameServer.Common.PathPlaces Locations

-- What the parser leaves in a path.
structure Read (p : Path) : Prop where
  node : p.node = []
  version : p.version = []
  device : '/' ∉ p.device
  normal : Normal kindOf p.absolute p.dirs
  whole : ∀ d ∈ p.name :: p.dirs, '/' ∉ d
  first : ∀ d, p.dirs.head? = some d → d.getLast? ≠ some ':'

section reading

variable {p : Path}

theorem read_push (read : Read p) {dir : Name} (whole : '/' ∉ dir) (first : p.dirs = [] → dir.getLast? ≠ some ':') :
    Read (pushDirectory p dir) := by
  rw [pushDirectory_eq]
  refine ⟨read.node,read.version,read.device,normal_push read.normal dir,?_,?_⟩
  · intro d member
    rcases List.mem_cons.mp member with last | before
    · exact read.whole d (last ▸ List.mem_cons_self)
    · rcases mem_push before with old | new
      · exact read.whole d (List.mem_cons_of_mem _ old)
      · exact new ▸ whole
  · intro d ahead
    dsimp only at ahead
    rcases before : p.dirs with _ | ⟨a,rest⟩
    · rw [before] at ahead
      rcases mem_push (List.mem_of_mem_head? ahead) with none | only
      · exact absurd none List.not_mem_nil
      · exact only ▸ first before
    · rw [before] at ahead
      have same := head_push ahead
      exact same ▸ read.first a (before ▸ rfl)

theorem read_directory (read : Read p) {name : Name} (whole : '/' ∉ name) : Read (directory p name) := by
  unfold directory
  by_cases none : p.dirs = []
  · rw [if_pos none]
    by_cases device : name ≠ [] ∧ name.getLast? = some ':'
    · rw [if_pos device]
      exact ⟨read.node,read.version,fun inside => whole (List.dropLast_subset _ inside),read.normal,read.whole,read.first⟩
    · rw [if_neg device]
      refine read_push read whole fun _ ends => device ⟨?_,ends⟩
      rintro rfl
      cases ends
  · rw [if_neg none]
    exact read_push read whole fun wrong => absurd wrong none

theorem read_loop (read : Read p) (text : List Char) : Read (parseLoop p [] text) := by
  have pieces := split_pieces '/' text
  rw [parseLoop_split p List.not_mem_nil,List.nil_append]
  have through : ∀ (dirs : List Name) (p : Path), Read p → (∀ d ∈ dirs, '/' ∉ d) → Read (dirs.foldl directory p) := by
    intro dirs
    induction dirs with
    | nil => exact fun p read _ => read
    | cons d dirs ih =>
        intro p read whole
        exact ih _ (read_directory read (whole d List.mem_cons_self)) fun c member => whole c (List.mem_cons_of_mem _ member)
  have folded := through (split '/' text).1 p read fun d member => pieces d (List.mem_cons_of_mem _ member)
  refine ⟨folded.node,folded.version,folded.device,folded.normal,?_,folded.first⟩
  intro d member
  rcases List.mem_cons.mp member with last | before
  · exact pieces d (last ▸ List.mem_cons_self)
  · exact folded.whole d (List.mem_cons_of_mem _ before)

theorem read_clear (absolute : Bool) : Read {clear with absolute := absolute} := by
  refine ⟨rfl,rfl,List.not_mem_nil,normal_nil,?_,fun d wrong => by cases wrong⟩
  intro d member
  rw [List.mem_singleton.mp member]
  exact List.not_mem_nil

theorem parseLoop_absolute (p : Path) (name text : List Char) : (parseLoop p name text).absolute = p.absolute := by
  have kept (p : Path) (name : Name) : (directory p name).absolute = p.absolute := by
    unfold directory
    split
    · split
      · rfl
      · rw [pushDirectory_eq]
    · rw [pushDirectory_eq]
  induction text generalizing p name with
  | nil => rfl
  | cons c text ih =>
      rw [parseLoop]
      split
      · rw [ih,kept]
      · rw [ih]

theorem read_home (home : List Char) : Read {clear with dirs := homeDirs home, absolute := true} := by
  have read := read_loop (read_clear true) home
  have absolute : (parseLoop {clear with absolute := true} [] home).absolute = true := parseLoop_absolute _ _ _
  exact ⟨rfl,rfl,List.not_mem_nil,absolute ▸ read.normal,whole_unnamed read.whole,read.first⟩

theorem read_parse (home text : List Char) : Read (parseUnix (homeDirs home) text) := by
  unfold parseUnix
  split
  · exact read_clear false
  · exact read_loop (read_clear true) _
  · exact read_home home
  · exact read_loop (read_home home) _
  · exact read_loop (read_clear false) _

end reading

theorem directories_again (p : Path) (dirs : List Name) (normal : Normal kindOf p.absolute (p.dirs ++ dirs))
    (first : ∀ d, (p.dirs ++ dirs).head? = some d → d.getLast? ≠ some ':') :
    dirs.foldl directory p = {p with dirs := p.dirs ++ dirs} := by
  induction dirs generalizing p with
  | nil => rw [List.append_nil,List.foldl_nil]
  | cons d dirs ih =>
      have pushed : directory p d = {p with dirs := p.dirs ++ [d]} := by
        have onto : pushDirectory p d = {p with dirs := p.dirs ++ [d]} := by
          rw [pushDirectory_eq,push_next normal]
        unfold directory
        by_cases none : p.dirs = []
        · rw [if_pos none,if_neg (fun both => first d (by rw [none]; rfl) both.2),onto]
        · rw [if_neg none,onto]
      have behind : p.dirs ++ d :: dirs = p.dirs ++ [d] ++ dirs := List.append_cons _ _ _
      rw [behind] at normal first
      rw [List.foldl_cons,pushed,behind]
      exact ih {p with dirs := p.dirs ++ [d]} normal first

section again

variable {p : Path}

theorem loop_again (read : Read p) (device : Name) :
    parseLoop {clear with device := device, absolute := p.absolute} [] (join '/' p.dirs p.name) = {p with device := device} := by
  have pieces : split '/' (join '/' p.dirs p.name) = (p.dirs,p.name) :=
    split_join (read.whole _ List.mem_cons_self) fun d member => read.whole d (List.mem_cons_of_mem _ member)
  rw [parseLoop_split _ List.not_mem_nil,List.nil_append,pieces,
    directories_again {clear with device := device, absolute := p.absolute} p.dirs read.normal read.first]
  have node := read.node
  have version := read.version
  obtain ⟨_,_,_,_,_,_⟩ := p
  dsimp only at node version
  subst node version
  rfl

theorem build_device (some : p.device ≠ []) :
    buildUnix p = '/' :: (p.device ++ [':'] ++ '/' :: join '/' p.dirs p.name) := by
  unfold buildUnix
  rw [if_pos some,build_join,List.append_assoc,List.append_assoc]
  rfl

theorem build_root (none : p.device = []) :
    buildUnix p = (if p.absolute then ['/'] else []) ++ join '/' p.dirs p.name := by
  unfold buildUnix
  rw [if_neg (fun some => some none),build_join]

theorem loop_cut (p : Path) {name : Name} (whole : '/' ∉ name) (text : List Char) :
    parseLoop p [] (name ++ '/' :: text) = parseLoop (directory p name) [] text := by
  rw [parseLoop_split _ List.not_mem_nil,parseLoop_split _ List.not_mem_nil,List.nil_append,split_cut whole,List.foldl_cons,
    List.nil_append]

theorem directory_device (none : p.dirs = []) (device : Name) : directory p (device ++ [':']) = {p with device := device} := by
  unfold directory
  rw [if_pos none,if_pos ⟨List.concat_ne_nil _ _,List.getLast?_concat⟩,List.dropLast_concat]

theorem again_rooted (read : Read p) (rooted : p.absolute = true) :
    parseLoop {clear with device := p.device, absolute := true} [] (join '/' p.dirs p.name) = p := by
  rw [← rooted]
  exact loop_again read p.device

theorem again_device (read : Read p) (some : p.device ≠ []) (home : List Name) :
    parseUnix home (buildUnix p) = parseLoop {clear with device := p.device, absolute := true} [] (join '/' p.dirs p.name) := by
  have whole : '/' ∉ p.device ++ [':'] := by
    intro inside
    rcases List.mem_append.mp inside with own | colon
    · exact read.device own
    · cases List.mem_singleton.mp colon
  rw [build_device some,parseUnix,loop_cut _ whole,directory_device rfl]

theorem again_home (home : List Name) (tilde : (p.dirs ++ [p.name]).head? = some ['~']) :
    (parseUnix home (join '/' p.dirs p.name)).absolute = true := by
  rcases dirs : p.dirs with _ | ⟨d,dirs⟩
  · rw [dirs] at tilde
    rw [join,List.foldr_nil,Option.some.inj tilde]
    rfl
  · rw [dirs] at tilde
    rw [join,List.foldr_cons,Option.some.inj tilde]
    exact parseLoop_absolute _ _ _

theorem again_loose (read : Read p) (loose : ¬p.absolute = true) (none : p.device = []) (home : List Name)
    (tilde : (p.dirs ++ [p.name]).head? ≠ some ['~']) : parseUnix home (join '/' p.dirs p.name) = p := by
  have pieces : split '/' (join '/' p.dirs p.name) = (p.dirs,p.name) :=
    split_join (read.whole _ List.mem_cons_self) fun d member => read.whole d (List.mem_cons_of_mem _ member)
  have again : parseLoop clear [] (join '/' p.dirs p.name) = p := by
    have loop := loop_again read p.device
    rw [none,Bool.eq_false_iff.mpr loose] at loop
    rw [show clear = {clear with device := [], absolute := false} from rfl,loop,← none,← Bool.eq_false_iff.mpr loose]
  unfold parseUnix
  split
  · rename_i empty
    rw [empty] at again
    exact again
  · rename_i rest starts
    exact absurd starts (join_start read.whole (normal_some read.normal))
  · rename_i alone
    rw [alone] at pieces
    have dirs : [] = p.dirs := congrArg Prod.fst pieces
    have name : ['~'] = p.name := congrArg Prod.snd pieces
    rw [← dirs,← name] at tilde
    exact absurd rfl tilde
  · rename_i rest below
    rw [below] at pieces
    have dirs : ['~'] :: (split '/' rest).1 = p.dirs := congrArg Prod.fst pieces
    rw [← dirs] at tilde
    exact absurd rfl tilde
  · exact again

end again

-- A path comes back from its text, but for a device that was not at the root and a name the home is known by.
theorem path_comes_back (home text : List Char) :
    let p := parseUnix (homeDirs home) text
    parseUnix (homeDirs home) (buildUnix p) = p ↔
      p.absolute = true ∨ (p.device = [] ∧ (p.dirs ++ [p.name]).head? ≠ some ['~']) := by
  intro p
  have read : Read p := read_parse home text
  by_cases rooted : p.absolute = true
  · refine ⟨fun _ => Or.inl rooted,fun _ => ?_⟩
    have again := again_rooted read rooted
    by_cases none : p.device = []
    · rw [none] at again
      rw [build_root none,if_pos rooted,List.singleton_append,parseUnix]
      exact again
    · rw [again_device read none,again]
  · constructor
    · intro same
      refine Or.inr ⟨?_,?_⟩
      · by_contra some
        rw [again_device read some] at same
        exact rooted (same ▸ parseLoop_absolute _ _ _)
      · intro tilde
        by_cases none : p.device = []
        · rw [build_root none,if_neg rooted,List.nil_append] at same
          exact rooted (same ▸ again_home _ tilde)
        · rw [again_device read none] at same
          exact rooted (same ▸ parseLoop_absolute _ _ _)
    · rintro (wrong | ⟨none,tilde⟩)
      · exact absurd wrong rooted
      · rw [build_root none,if_neg rooted,List.nil_append]
        exact again_loose read rooted none _ tilde

end GameServer.Common.PathTexts
