import GameServer.Common.Paths

namespace GameServer.Common.PathPlaces
open GameServer.Common.Paths Locations

def kindOf (c : Name) : Kind :=
  if c = [] ∨ c = ['.'] then .stay else if c = ['.','.'] then .up else .down

-- Where a path leads from a directory, and what it names there.
@[ext]
structure Target where
  rooted : Bool
  leads : List Name → List Name
  name : Name

-- What the text of a path means to the system.
def seen : List Char → Target
  | '/' :: rest => ⟨true,fun _ => walk kindOf [] (split '/' rest).1,(split '/' rest).2⟩
  | text => ⟨false,fun base => walk kindOf base (split '/' text).1,(split '/' text).2⟩

-- The texts that are parsed. No component before a separator ends in ':', so that none
-- is taken for a device.
structure Text where
  text : List Char
  plain : ∀ c ∈ (split '/' text).1, c.getLast? ≠ some ':'

-- A user's text may also start at the home, whose own text has a separator before it.
def told (home : Text) : List Char → Target
  | ['~'] => ⟨true,fun _ => walk kindOf [] (split '/' home.text).1,[]⟩
  | '~' :: '/' :: rest =>
      ⟨true,fun _ => walk kindOf (walk kindOf [] (split '/' home.text).1) (split '/' rest).1,(split '/' rest).2⟩
  | text => seen text

-- What is done with paths.
inductive Expr where
  | parse (text : Text)
  | pushDirectory (path : Expr) (dir : Name)
  | makeDirectory (path : Expr)
  | makeParent (path : Expr)
  | setFileName (path : Expr) (name : Name)
  | append (path other : Expr)
  | resolve (path other : Expr)
  | makeAbsolute (path base : Expr)

def Expr.eval (home : Text) : Expr → Path
  | parse text => parseUnix (homeDirs home.text) text.text
  | pushDirectory path dir => Paths.pushDirectory (path.eval home) dir
  | makeDirectory path => Paths.makeDirectory (path.eval home)
  | makeParent path => Paths.makeParent (path.eval home)
  | setFileName path name => Paths.setFileName (path.eval home) name
  | append path other => Paths.append (path.eval home) (other.eval home)
  | resolve path other => Paths.resolve (path.eval home) (other.eval home)
  | makeAbsolute path base => Paths.makeAbsolute (path.eval home) (base.eval home)

-- The names handed over have no separators, and what is appended leads nowhere out.
def Expr.Inner (home : Text) : Expr → Prop
  | parse _ => True
  | pushDirectory path dir => path.Inner home ∧ '/' ∉ dir
  | makeDirectory path => path.Inner home
  | makeParent path => path.Inner home
  | setFileName path name => path.Inner home ∧ '/' ∉ name
  | append path other => path.Inner home ∧ other.Inner home ∧ ['.','.'] ∉ (other.eval home).dirs
  | resolve path other => path.Inner home ∧ other.Inner home
  | makeAbsolute path base => path.Inner home ∧ base.Inner home

namespace Target

def into (g : Target) (dirs : List Name) (name : Name) : Target :=
  ⟨g.rooted,fun base => walk kindOf (g.leads base) dirs,name⟩

def directory (g : Target) : Target := g.into [g.name] []

def parent (g : Target) : Target := if g.name = [] then g.into [['.','.']] [] else {g with name := []}

def after (g h : Target) : Target := if h.rooted then h else ⟨g.rooted,fun base => h.leads (g.leads base),h.name⟩

def below (g h : Target) : Target := ⟨g.rooted,fun base => g.directory.leads base ++ h.leads [],h.name⟩

end Target

def Expr.target (home : Text) : Expr → Target
  | parse text => told home text.text
  | pushDirectory path dir => (path.target home).into [dir] (path.target home).name
  | makeDirectory path => (path.target home).directory
  | makeParent path => (path.target home).parent
  | setFileName path name => {path.target home with name := name}
  | append path other => (path.target home).below (other.target home)
  | resolve path other => (path.target home).after (other.target home)
  | makeAbsolute path base => (base.target home).directory.after (path.target home)

structure Shows (p : Path) (g : Target) : Prop where
  device : p.device = []
  rooted : p.absolute = g.rooted
  name : p.name = g.name
  normal : Normal kindOf p.absolute p.dirs
  whole : ∀ d ∈ p.name :: p.dirs, '/' ∉ d
  leads : ∀ base, walk kindOf (if p.absolute then [] else base) p.dirs = g.leads base

theorem kindOf_up (c : Name) : kindOf c = .up ↔ c = ['.','.'] := by
  unfold kindOf
  constructor
  · intro is
    split at is
    · cases is
    · split at is
      · assumption
      · cases is
  · rintro rfl
    rfl

theorem kindOf_stay (c : Name) : kindOf c = .stay ↔ c = [] ∨ c = ['.'] := by
  unfold kindOf
  constructor
  · intro is
    split at is
    · assumption
    · split at is
      · cases is
      · cases is
  · intro stays
    exact if_pos stays

theorem normal_some {rooted : Bool} {dirs : List Name} (normal : Normal kindOf rooted dirs) : ∀ d ∈ dirs, d ≠ [] := by
  rintro d member rfl
  obtain ⟨ups,downs,rfl,up,down,-⟩ := normal.split
  rcases List.mem_append.mp member with out | inner
  · cases up _ out
  · cases down _ inner

section pushes

variable {p : Path} {g : Target}

theorem pushDirectory_eq (p : Path) (dir : Name) : pushDirectory p dir = {p with dirs := push kindOf p.absolute p.dirs dir} := by
  unfold pushDirectory
  by_cases stays : dir = [] ∨ dir = ['.']
  · rw [push_stay ((kindOf_stay dir).mpr stays),if_neg]
    rintro ⟨some,other⟩
    rcases stays with none | dot
    · exact some none
    · exact other dot
  · rw [if_pos ⟨fun none => stays (Or.inl none),fun dot => stays (Or.inr dot)⟩]
    by_cases up : dir = ['.','.']
    · have kind := (kindOf_up dir).mpr up
      rw [if_pos up]
      by_cases cancels : p.dirs ≠ [] ∧ p.dirs.getLast? ≠ some ['.','.']
      · rw [if_pos cancels]
        obtain ⟨front,last,ends⟩ := (List.eq_nil_or_concat' p.dirs).resolve_left cancels.1
        have inner : kindOf last ≠ .up := by
          intro out
          rw [ends,List.getLast?_concat,(kindOf_up last).mp out] at cancels
          exact cancels.2 rfl
        rw [ends,push_cancels kind inner,List.dropLast_concat]
      · rw [if_neg cancels,push_out kind]
        · by_cases rooted : p.absolute = true
          · rw [if_neg (fun loose => loose rooted),if_pos rooted]
          · rw [if_pos rooted,if_neg rooted]
        · intro last ends
          by_contra inner
          refine cancels ⟨?_,?_⟩
          · intro none
            rw [none] at ends
            cases ends
          · intro out
            rw [Option.mem_def,out] at ends
            exact inner ((kindOf_up last).mpr (Option.some.inj ends).symm)
    · have kind : kindOf dir = .down := by
        unfold kindOf
        rw [if_neg stays,if_neg up]
      rw [if_neg up,push_down kind]

theorem pushDirectories_eq (p : Path) (dirs : List Name) :
    dirs.foldl pushDirectory p = {p with dirs := dirs.foldl (push kindOf p.absolute) p.dirs} := by
  induction dirs generalizing p with
  | nil => rfl
  | cons d dirs ih => rw [List.foldl_cons,ih,pushDirectory_eq,List.foldl_cons]

-- What is pushed on a path that shows a target leads on from there.
theorem shows_into (shows_ : Shows p g) {dirs : List Name} {name : Name} (whole : ∀ d ∈ name :: dirs, '/' ∉ d) :
    Shows {dirs.foldl pushDirectory p with name := name} (g.into dirs name) := by
  rw [pushDirectories_eq]
  refine ⟨shows_.device,shows_.rooted,rfl,normal_pushes shows_.normal dirs,?_,?_⟩
  · intro d member
    rcases List.mem_cons.mp member with last | before
    · exact whole d (last ▸ List.mem_cons_self)
    · rcases mem_pushes before with old | new
      · exact shows_.whole d (List.mem_cons_of_mem _ old)
      · exact whole d (List.mem_cons_of_mem _ new)
  · intro base
    dsimp only [Target.into]
    rw [walk_pushes shows_.normal dirs fun rooted => if_pos rooted,shows_.leads base]

theorem shows_pushed (shows_ : Shows p g) {dir : Name} (whole : '/' ∉ dir) : Shows (pushDirectory p dir) (g.into [dir] g.name) := by
  have same : {[dir].foldl pushDirectory p with name := p.name} = pushDirectory p dir := by
    rw [pushDirectories_eq,pushDirectory_eq]
    rfl
  have names : ∀ d ∈ [p.name,dir], '/' ∉ d := by
    intro d member
    rcases List.mem_cons.mp member with last | only
    · exact shows_.whole d (last ▸ List.mem_cons_self)
    · rw [List.mem_singleton.mp only]
      exact whole
  have pushed := shows_into shows_ names
  rw [same] at pushed
  rw [← shows_.name]
  exact pushed

theorem whole_unnamed {name : Name} {dirs : List Name} (whole : ∀ d ∈ name :: dirs, '/' ∉ d) : ∀ d ∈ [] :: dirs, '/' ∉ d := by
  intro d member
  rcases List.mem_cons.mp member with last | before
  · rw [last]
    exact List.not_mem_nil
  · exact whole d (List.mem_cons_of_mem _ before)

theorem shows_directory (shows_ : Shows p g) : Shows (makeDirectory p) g.directory := by
  have pushed := shows_pushed shows_ (shows_.whole _ List.mem_cons_self)
  rw [Target.directory,← shows_.name]
  exact ⟨pushed.device,pushed.rooted,rfl,pushed.normal,whole_unnamed pushed.whole,pushed.leads⟩

-- Out of a directory of its own, or one more out.
theorem makeParent_eq (shows_ : Shows p g) (none : p.name = []) : makeParent p = pushDirectory p ['.','.'] := by
  unfold makeParent
  rw [if_pos none,pushDirectory_eq]
  rcases normal_last shows_.normal with ⟨front,last,ends,inner,-⟩ | ⟨up,root⟩
  · have other : last ≠ ['.','.'] := by
      rintro rfl
      cases inner
    rw [ends,push_cancels rfl (by rw [inner]; decide),List.getLast?_concat]
    dsimp only
    rw [if_neg other,List.dropLast_concat]
  · rw [push_out rfl fun last member => up last (List.mem_of_getLast? member)]
    by_cases rooted : p.absolute = true
    · rw [root rooted,if_pos rooted]
      dsimp only [List.getLast?_nil]
      rw [if_neg (fun loose => loose rooted),← root rooted]
    · rw [if_neg rooted]
      cases last : p.dirs.getLast? with
      | none => exact if_pos rooted
      | some back => exact if_pos ((kindOf_up back).mp (up back (List.mem_of_getLast? last)))

theorem shows_parent (shows_ : Shows p g) : Shows (makeParent p) g.parent := by
  unfold Target.parent
  rw [← shows_.name]
  by_cases none : p.name = []
  · rw [if_pos none,makeParent_eq shows_ none]
    have pushed := shows_pushed shows_ (show '/' ∉ ['.','.'] by decide)
    rw [← shows_.name,none] at pushed
    exact pushed
  · rw [if_neg none,makeParent,if_neg none]
    exact ⟨shows_.device,shows_.rooted,rfl,shows_.normal,whole_unnamed shows_.whole,shows_.leads⟩

variable {q : Path} {h : Target}

theorem shows_append (shows_ : Shows p g) (other : Shows q h) (inner : ['.','.'] ∉ q.dirs) : Shows (append p q) (g.below h) := by
  have start := shows_directory shows_
  have downs : ∀ d ∈ q.dirs, kindOf d = .down :=
    normal_inner other.normal fun d member out => inner ((kindOf_up d).mp out ▸ member)
  refine ⟨start.device,start.rooted,other.name,normal_downs start.normal downs,?_,?_⟩
  · intro d member
    rcases List.mem_cons.mp member with last | before
    · exact other.whole d (last ▸ List.mem_cons_self)
    · rcases List.mem_append.mp before with own | appended
      · exact start.whole d (List.mem_cons_of_mem _ own)
      · exact other.whole d (List.mem_cons_of_mem _ appended)
  · intro base
    have led := other.leads []
    rw [ite_self,walk_downs downs,List.nil_append] at led
    dsimp only [Target.below]
    rw [← led,← start.leads base]
    exact (walk_append _ _).trans (walk_downs downs)

theorem leads_loose (other : Shows q h) (loose : ¬q.absolute = true) (base : List Name) : h.leads base = walk kindOf base q.dirs := by
  rw [← other.leads base,if_neg loose]

theorem shows_resolve (shows_ : Shows p g) (other : Shows q h) : Shows (resolve p q) (g.after h) := by
  unfold resolve Target.after
  rw [← other.rooted]
  by_cases rooted : q.absolute = true
  · rw [if_pos rooted,if_pos rooted]
    exact other
  · rw [if_neg rooted,if_neg rooted,← other.name]
    rw [funext fun base => leads_loose other rooted (g.leads base)]
    exact shows_into shows_ other.whole

theorem shows_absolute (shows_ : Shows p g) (base : Shows q h) : Shows (makeAbsolute p q) (h.directory.after g) := by
  unfold makeAbsolute Target.after
  rw [← shows_.rooted]
  by_cases rooted : p.absolute = true
  · rw [if_neg (fun loose => loose rooted),if_pos rooted]
    exact shows_
  · rw [if_pos rooted,if_neg rooted,← shows_.name]
    rw [funext fun from_ => leads_loose shows_ rooted (h.directory.leads from_)]
    have pushed := shows_into (shows_directory base) shows_.whole
    have same : (p.dirs.foldl pushDirectory (makeDirectory q)).absolute = q.absolute := by
      rw [pushDirectories_eq,makeDirectory,pushDirectory_eq]
    refine ⟨pushed.device,base.rooted,rfl,?_,pushed.whole,?_⟩
    · exact same ▸ pushed.normal
    · intro from_
      have led := pushed.leads from_
      dsimp only at led
      rw [same] at led
      exact led

end pushes

section texts

variable {p : Path} {g : Target}

theorem parseLoop_split (p : Path) {name : Name} (whole : '/' ∉ name) (text : List Char) :
    parseLoop p name text = {(split '/' (name ++ text)).1.foldl directory p with name := (split '/' (name ++ text)).2} := by
  induction text generalizing p name with
  | nil => rw [List.append_nil,split_piece whole,parseLoop,List.foldl_nil]
  | cons c text ih =>
      rw [parseLoop]
      by_cases ends : c = '/'
      · rw [if_pos ends,ih _ List.not_mem_nil,ends,split_cut whole,List.foldl_cons,List.nil_append]
      · have longer : '/' ∉ name ++ [c] := by
          intro member
          rcases List.mem_append.mp member with old | new
          · exact whole old
          · exact ends (List.mem_singleton.mp new).symm
        rw [if_neg ends,ih _ longer,List.append_assoc,List.singleton_append]

theorem directories_plain (p : Path) {dirs : List Name} (plain : ∀ d ∈ dirs, d.getLast? ≠ some ':') :
    dirs.foldl directory p = dirs.foldl pushDirectory p := by
  induction dirs generalizing p with
  | nil => rfl
  | cons d dirs ih =>
      have first : directory p d = pushDirectory p d := by
        unfold directory
        by_cases none : p.dirs = []
        · rw [if_pos none,if_neg (fun both => plain d List.mem_cons_self both.2)]
        · rw [if_neg none]
      rw [List.foldl_cons,List.foldl_cons,first]
      exact ih _ fun d member => plain d (List.mem_cons_of_mem _ member)

theorem shows_read (shows_ : Shows p g) {text : List Char} (plain : ∀ d ∈ (split '/' text).1, d.getLast? ≠ some ':') :
    Shows (parseLoop p [] text) (g.into (split '/' text).1 (split '/' text).2) := by
  rw [parseLoop_split p List.not_mem_nil,List.nil_append,directories_plain p plain]
  exact shows_into shows_ (split_pieces '/' text)

theorem shows_clear (absolute : Bool) :
    Shows {clear with absolute := absolute} ⟨absolute,fun base => if absolute then [] else base,[]⟩ := by
  refine ⟨rfl,rfl,rfl,normal_nil,?_,fun _ => rfl⟩
  intro d member
  rw [List.mem_singleton.mp member]
  exact List.not_mem_nil

theorem plain_behind {name text : List Char} (whole : '/' ∉ name)
    (plain : ∀ d ∈ (split '/' (name ++ '/' :: text)).1, d.getLast? ≠ some ':') :
    ∀ d ∈ (split '/' text).1, d.getLast? ≠ some ':' := by
  rw [split_cut whole] at plain
  exact fun d member => plain d (List.mem_cons_of_mem _ member)

theorem shows_home (home : Text) :
    Shows {clear with dirs := homeDirs home.text, absolute := true} ⟨true,fun _ => walk kindOf [] (split '/' home.text).1,[]⟩ := by
  have read := shows_read (shows_clear true) home.plain
  have absolute : (parseLoop {clear with absolute := true} [] home.text).absolute = true := read.rooted
  refine ⟨rfl,rfl,rfl,absolute ▸ read.normal,whole_unnamed read.whole,?_⟩
  intro base
  have led := read.leads base
  rw [absolute] at led
  exact led

theorem shows_parse (home text : Text) : Shows (parseUnix (homeDirs home.text) text.text) (told home text.text) := by
  obtain ⟨text,plain⟩ := text
  dsimp only
  unfold parseUnix
  split
  · exact shows_clear false
  · rename_i rest
    exact shows_read (shows_clear true) (plain_behind List.not_mem_nil plain)
  · exact shows_home home
  · rename_i rest
    refine @shows_read _ _ (shows_home home) ('/' :: rest) ?_
    intro d member
    rcases List.mem_cons.mp member with none | later
    · rw [none]
      exact fun wrong => by cases wrong
    · exact @plain_behind ['~'] rest (by decide) plain d later
  · rename_i rooted alone below
    have here : told home text = ⟨false,fun base => walk kindOf base (split '/' text).1,(split '/' text).2⟩ := by
      unfold told
      split
      · exact absurd rfl alone
      · exact absurd rfl (below _)
      · unfold seen
        split
        · exact absurd rfl (rooted _)
        · rfl
    rw [here]
    exact shows_read (shows_clear false) plain

theorem build_join (text : List Char) (dirs : List Name) (name : Name) :
    dirs.foldl (fun text dir => text ++ dir ++ ['/']) text ++ name = text ++ join '/' dirs name := by
  induction dirs generalizing text with
  | nil => rfl
  | cons d dirs ih =>
      rw [List.foldl_cons,ih,join,join,List.foldr_cons,List.append_assoc,List.append_assoc,List.singleton_append]

-- The text of components that are none empty starts with no separator.
theorem join_start {dirs : List Name} {name rest : Name} (whole : ∀ d ∈ name :: dirs, '/' ∉ d) (some : ∀ d ∈ dirs, d ≠ []) :
    join '/' dirs name ≠ '/' :: rest := by
  intro starts
  rcases dirs with _ | ⟨d,dirs⟩
  · rw [join,List.foldr_nil] at starts
    exact whole name List.mem_cons_self (starts ▸ List.mem_cons_self)
  · have member : d ∈ d :: dirs := List.mem_cons_self
    rcases d with _ | ⟨c,d⟩
    · exact some [] member rfl
    · rw [join,List.foldr_cons,List.cons_append] at starts
      exact whole _ (List.mem_cons_of_mem _ member) (List.mem_cons.mpr (Or.inl (List.cons.inj starts).1.symm))

-- The text that is built leads where the path shows.
theorem seen_build (shows_ : Shows p g) : seen (buildUnix p) = g := by
  have pieces : split '/' (join '/' p.dirs p.name) = (p.dirs,p.name) :=
    split_join (shows_.whole _ List.mem_cons_self) fun d member => shows_.whole d (List.mem_cons_of_mem _ member)
  have target : g = ⟨p.absolute,fun base => walk kindOf (if p.absolute then [] else base) p.dirs,p.name⟩ := by
    rw [shows_.rooted,shows_.name]
    rw [← shows_.rooted,funext shows_.leads,shows_.rooted]
  unfold buildUnix
  rw [if_neg (fun some => some shows_.device),build_join,target]
  by_cases rooted : p.absolute = true
  · rw [if_pos rooted,List.singleton_append,seen,pieces,rooted]
    rfl
  · rw [if_neg rooted,List.nil_append,Bool.eq_false_iff.mpr rooted]
    unfold seen
    split
    · rename_i rest starts
      exact absurd starts (join_start shows_.whole (normal_some shows_.normal))
    · rw [pieces]
      rfl

end texts

theorem expr_shows (home : Text) (e : Expr) (inner : e.Inner home) : Shows (e.eval home) (e.target home) := by
  induction e with
  | parse text => exact shows_parse home text
  | pushDirectory path dir ih => exact shows_pushed (ih inner.1) inner.2
  | makeDirectory path ih => exact shows_directory (ih inner)
  | makeParent path ih => exact shows_parent (ih inner)
  | setFileName path name ih =>
      have before := ih inner.1
      refine ⟨before.device,before.rooted,rfl,before.normal,?_,before.leads⟩
      intro d member
      rcases List.mem_cons.mp member with last | old
      · rw [last]
        exact inner.2
      · exact before.whole d (List.mem_cons_of_mem _ old)
  | append path other first second => exact shows_append (first inner.1) (second inner.2.1) inner.2.2
  | resolve path other first second => exact shows_resolve (first inner.1) (second inner.2)
  | makeAbsolute path base first second => exact shows_absolute (first inner.1) (second inner.2)

-- Whatever is done with paths, the text of what comes out leads where the texts that went in do.
theorem path_texts_lead (home : Text) (e : Expr) (inner : e.Inner home) : seen (buildUnix (e.eval home)) = e.target home :=
  seen_build (expr_shows home e inner)

theorem path_texts_lead_home :
    seen (buildUnix (Expr.eval ⟨['r','/'],by decide⟩
      (.append (.resolve (.parse ⟨['~','/','x'],by decide⟩) (.parse ⟨['.','.','/','y'],by decide⟩)) (.parse ⟨['b','/','c'],by decide⟩)))) =
      ⟨true,fun _ => [['y'],['b']],['c']⟩ :=
  path_texts_lead ⟨['r','/'],by decide⟩ _ ⟨⟨trivial,trivial⟩,trivial,by decide⟩

end GameServer.Common.PathPlaces
