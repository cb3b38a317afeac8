import Mathlib.Data.List.Basic
import Mathlib.Data.List.Induction
import SchemaClasses.Files.Tree
import SchemaClasses.Proofs.Path
import SchemaClasses.Proofs.Text.Trim

set_option autoImplicit false

namespace SchemaClasses

namespace Path

/-- No piece of the path stands for the current directory or for the one above. -/
def Direct (path : Path) : Prop :=
  ∀ piece ∈ Text.splitOn '/' path.text, piece ≠ ['.'] ∧ piece ≠ ['.', '.']

instance (path : Path) : Decidable path.Direct :=
  inferInstanceAs (Decidable (∀ piece ∈ Text.splitOn '/' path.text, piece ≠ ['.'] ∧ piece ≠ ['.', '.']))

def names (path : Path) : Location := (Text.splitOn '/' path.text).filter (· ≠ [])

theorem names_slash (before after : Text) :
    (⟨before ++ '/' :: after⟩ : Path).names = (⟨before⟩ : Path).names ++ (⟨after⟩ : Path).names := by
  rw [names, Text.splitOn_append, List.filter_append]
  rfl

theorem direct_slash (before after : Text) : (⟨before ++ '/' :: after⟩ : Path).Direct ↔
    (⟨before⟩ : Path).Direct ∧ (⟨after⟩ : Path).Direct := by
  rw [Direct, Text.splitOn_append, List.forall_mem_append]
  rfl

theorem names_isFileName {file : Text} (named : Component.IsFileName file) :
    (⟨file⟩ : Path).names = [file] := by
  simp [names, Text.splitOn_of_notMem named.single, named.nonempty]

theorem direct_isFileName {file : Text} (named : Component.IsFileName file) :
    (⟨file⟩ : Path).Direct := by
  simp [Direct, Text.splitOn_of_notMem named.single, named.noCurrent, named.noParent]

theorem names_nil : (⟨[]⟩ : Path).names = [] := rfl

theorem direct_nil : (⟨[]⟩ : Path).Direct := by decide

theorem file_of_join {directory : Path} (direct : directory.Direct) {file : Text}
    (named : Component.IsFileName file) :
    (directory.join ⟨file⟩).Direct ∧
      (directory.join ⟨file⟩).isAbsolute = directory.isAbsolute ∧
      (directory.join ⟨file⟩).names = directory.names ++ [file] := by
  obtain ⟨text⟩ := directory
  have relative : (⟨file⟩ : Path).isAbsolute = false := by
    cases file with
    | nil => rfl
    | cons c rest =>
      have other : c ≠ '/' := fun same => named.single (same ▸ List.mem_cons_self)
      simp [isAbsolute, other]
  rcases join_file ⟨text⟩ named.single with ⟨empty, alone⟩ | ⟨before, place, joined⟩
  · obtain rfl : text = [] := empty
    rw [alone]
    exact ⟨direct_isFileName named, relative, names_isFileName named⟩
  · rw [joined, names_slash, direct_slash, names_isFileName named]
    rcases place with slash | ⟨same, nonempty⟩
    · obtain rfl : text = before ++ ['/'] := slash
      rw [direct_slash] at direct
      refine ⟨⟨direct.1, direct_isFileName named⟩, ?_, ?_⟩
      · cases before <;> rfl
      · rw [names_slash, names_nil, List.append_nil]
    · obtain rfl : text = before := same
      refine ⟨⟨direct, direct_isFileName named⟩, ?_, rfl⟩
      cases text with
      | nil => contradiction
      | cons c rest => rfl

theorem names_joinWith {pieces : List Text} (single : ∀ piece ∈ pieces, '/' ∉ piece) :
    (⟨Text.joinWith '/' pieces⟩ : Path).names = pieces.filter (· ≠ []) := by
  by_cases empty : pieces = []
  · rw [empty]
    rfl
  · rw [names, Text.splitOn_joinWith empty single]

theorem direct_joinWith {pieces : List Text} (single : ∀ piece ∈ pieces, '/' ∉ piece)
    (undotted : ∀ piece ∈ pieces, piece ≠ ['.'] ∧ piece ≠ ['.', '.']) :
    (⟨Text.joinWith '/' pieces⟩ : Path).Direct := by
  by_cases empty : pieces = []
  · rw [empty]
    exact direct_nil
  · rw [Direct, Text.splitOn_joinWith empty single]
    exact undotted

theorem filter_dropIdle {pieces : List Text} (undotted : ∀ piece ∈ pieces, piece ≠ ['.']) :
    (dropIdle pieces).filter (· ≠ []) = pieces.filter (· ≠ []) := by
  induction pieces with
  | nil => rfl
  | cons piece rest ih =>
    obtain ⟨here, later⟩ := List.forall_mem_cons.mp undotted
    by_cases empty : piece = []
    · subst empty
      exact ih later
    · have kept : dropIdle (piece :: rest) = piece :: rest := by
        simp [dropIdle, empty, here]
      rw [kept]

theorem parent_of_pieces {text last : Text} {before : List Text} (direct : (⟨text⟩ : Path).Direct)
    (cut : dropIdle (Text.splitOn '/' text).reverse = last :: before) :
    let above := Text.joinWith '/' (dropIdle before).reverse
    above <+: text ∧ (⟨above⟩ : Path).Direct ∧
      (⟨text⟩ : Path).names = (⟨above⟩ : Path).names ++ [last] := by
  intro above
  have suffix : dropIdle before <:+ (Text.splitOn '/' text).reverse := by
    have behind : last :: before <:+ (Text.splitOn '/' text).reverse := cut ▸ List.dropWhile_suffix _
    exact ((List.dropWhile_suffix _).trans (List.suffix_cons last before)).trans behind
  have leads : (dropIdle before).reverse <+: Text.splitOn '/' text := by
    rw [← List.reverse_suffix, List.reverse_reverse]
    exact suffix
  have single : ∀ piece ∈ (dropIdle before).reverse, '/' ∉ piece := fun piece member =>
    Text.notMem_of_mem_splitOn (leads.subset member)
  refine ⟨?_, direct_joinWith single fun piece member => direct piece (leads.subset member), ?_⟩
  · obtain ⟨rest, whole⟩ := leads
    have spelled := Text.joinWith_splitOn '/' text
    rw [← whole] at spelled
    rw [← spelled]
    exact Text.joinWith_isPrefix '/' _ rest
  · have reversed : ∀ piece ∈ (Text.splitOn '/' text).reverse, piece ≠ ['.'] := fun piece member =>
      (direct piece (List.mem_reverse.mp member)).1
    have inner : ∀ piece ∈ before, piece ≠ ['.'] := fun piece member =>
      reversed piece ((cut ▸ List.dropWhile_suffix _ : last :: before <:+ _).subset
        (List.mem_cons_of_mem _ member))
    have visible : last ≠ [] := by
      have stops := List.head?_dropWhile_not (fun piece => piece == [] || piece == ['.'])
        (Text.splitOn '/' text).reverse
      rw [← dropIdle, cut] at stops
      simp_all
    have kept := filter_dropIdle reversed
    rw [cut, List.filter_cons_of_pos (by simpa using visible), List.filter_reverse] at kept
    rw [names_joinWith single, List.filter_reverse, filter_dropIdle inner, ← List.reverse_cons, kept,
      List.reverse_reverse]
    rfl

theorem Direct.anchor_eq {path : Path} (direct : path.Direct) :
    (path.text = '/' :: path.anchor.2 ∧ path.anchor.1 = ['/']) ∨
      (path.isAbsolute = false ∧ path.anchor = ([], path.text)) := by
  obtain ⟨text⟩ := path
  have alone : text ≠ ['.'] := by
    rintro rfl
    exact (direct ['.'] (by decide)).1 rfl
  have leading (rest : Text) : text ≠ '.' :: '/' :: rest := by
    rintro rfl
    exact ((direct_slash ['.'] rest).mp direct).1 ['.'] (by decide) |>.1 rfl
  rcases text with _ | ⟨c, rest⟩
  · exact .inr ⟨rfl, rfl⟩
  · by_cases slash : c = '/'
    · subst slash
      exact .inl ⟨rfl, rfl⟩
    · right
      refine ⟨by simp [isAbsolute, slash], ?_⟩
      unfold anchor
      split <;> simp_all

theorem Direct.parent {path parent : Path} (direct : path.Direct)
    (found : path.parent? = some parent) : parent.Direct ∧ parent.isAbsolute = path.isAbsolute ∧
      ∃ last, path.names = parent.names ++ [last] := by
  obtain ⟨text⟩ := path
  unfold parent? at found
  rcases direct.anchor_eq with ⟨absolute, rooted⟩ | ⟨relative, whole⟩
  · -- Behind the root stands a path that is not empty, or there is no directory above.
    generalize (⟨text⟩ : Path).anchor = anchor at absolute rooted found
    obtain ⟨ground, rest⟩ := anchor
    obtain rfl : ground = ['/'] := rooted
    obtain rfl : text = '/' :: rest := absolute
    have behind : (⟨rest⟩ : Path).Direct := ((direct_slash [] rest).mp direct).2
    cases cut : dropIdle (Text.splitOn '/' rest).reverse with
    | nil => simp [cut] at found
    | cons last before =>
      obtain ⟨-, above, names⟩ := parent_of_pieces behind cut
      simp only [cut, Option.some.injEq] at found
      subst found
      exact ⟨(direct_slash [] _).mpr ⟨direct_nil, above⟩, rfl, last, names⟩
  · rw [whole] at found
    cases cut : dropIdle (Text.splitOn '/' text).reverse with
    | nil => simp [cut] at found
    | cons last before =>
      obtain ⟨start, above, names⟩ := parent_of_pieces direct cut
      simp only [cut, Option.some.injEq] at found
      subst found
      refine ⟨above, ?_, last, names⟩
      rw [relative]
      generalize Text.joinWith '/' (dropIdle before).reverse = shorter at start
      cases shorter with
      | nil => rfl
      | cons c rest =>
        obtain ⟨more, rfl⟩ := start
        exact relative

theorem append_slashes (text slashes : Text) (only : ∀ c ∈ slashes, c = '/') :
    (⟨text ++ slashes⟩ : Path).names = (⟨text⟩ : Path).names ∧
      ((⟨text ++ slashes⟩ : Path).Direct ↔ (⟨text⟩ : Path).Direct) := by
  induction slashes using List.reverseRecOn with
  | nil => simp
  | append_singleton slashes last ih =>
    obtain rfl : last = '/' := only last (by simp)
    obtain ⟨names, direct⟩ := ih fun c member => only c (by simp [member])
    rw [← List.append_assoc, names_slash, direct_slash, names_nil, List.append_nil, names, direct]
    exact ⟨rfl, and_iff_left direct_nil⟩

end Path

namespace FileTree

def locationOf (tree : FileTree) (path : Path) : Location :=
  (if path.isAbsolute then [] else tree.workingDirectory) ++ path.names

variable {tree after : FileTree} {path : Path} {location : Location}

theorem eq_of_step {piece : Text} {next : Location} (noCurrent : piece ≠ ['.'])
    (noParent : piece ≠ ['.', '.']) (taken : tree.step location piece = .ok next) :
    next = location ++ [piece].filter (· ≠ []) := by
  unfold step at taken
  split at taken
  · cases taken
  · cases taken
  · by_cases empty : piece = [] <;> simp_all

theorem eq_of_foldlM_step {pieces : List Text} {start : Location}
    (undotted : ∀ piece ∈ pieces, piece ≠ ['.'] ∧ piece ≠ ['.', '.'])
    (followed : pieces.foldlM tree.step start = .ok location) :
    location = start ++ pieces.filter (· ≠ []) := by
  induction pieces generalizing start with
  | nil =>
    cases followed
    simp
  | cons piece rest ih =>
    obtain ⟨⟨noCurrent, noParent⟩, later⟩ := List.forall_mem_cons.mp undotted
    rw [List.foldlM_cons] at followed
    cases taken : tree.step start piece with
    | error cause =>
      rw [taken] at followed
      cases followed
    | ok next =>
      rw [taken] at followed
      rw [ih later followed, eq_of_step noCurrent noParent taken, List.append_assoc,
        ← List.filter_append, List.singleton_append]

theorem locate_eq (direct : path.Direct) (located : tree.locate path = .ok location) :
    location = tree.locationOf path := by
  unfold locate at located
  split at located
  · cases located
  · exact eq_of_foldlM_step direct located

theorem locateNew_eq (direct : path.Direct) (located : tree.locateNew path = .ok location) :
    location = tree.locationOf path := by
  obtain ⟨text⟩ := path
  obtain ⟨slashes, whole, only⟩ := Text.exists_dropEndWhile (· == '/') text
  unfold locateNew at located
  generalize Text.dropEndWhile (· == '/') text = kept at located whole
  have idle := Path.append_slashes kept slashes (by simpa using only)
  split at located
  · cases located
  · rename_i nonempty
    rw [← whole] at idle
    cases kept with
    | nil =>
      -- Nothing but slashes is the root.
      cases located
      obtain ⟨c, rest, rfl⟩ := List.exists_cons_of_ne_nil nonempty
      obtain rfl : slashes = c :: rest := whole.symm
      have slash : c = '/' := by simpa using only c List.mem_cons_self
      rw [locationOf, idle.1, Path.names_nil, slash]
      rfl
    | cons c rest =>
      rw [locate_eq (idle.2.mp direct) located, locationOf, locationOf, idle.1, whole]
      rfl

theorem next_of_locateNew (direct : path.Direct) {next : Location → Except Cause FileTree}
    (done : tree.locateNew path >>= next = .ok after) : next (tree.locationOf path) = .ok after := by
  cases located : tree.locateNew path with
  | error cause =>
    rw [located] at done
    cases done
  | ok location =>
    rw [located] at done
    exact locateNew_eq direct located ▸ done

theorem eq_of_write {text : Text} (direct : path.Direct) (written : tree.write path text = .ok after) :
    tree.entryAt? (tree.locationOf path) ≠ some .directory ∧
      after = tree.put (tree.locationOf path) (.file (.text text)) := by
  have done := next_of_locateNew direct written
  split at done
  · cases done
  · rename_i free
    cases done
    exact ⟨fun directory => free (.inr directory), rfl⟩

theorem eq_of_createDirectory (direct : path.Direct)
    (created : tree.createDirectory path = .ok after) :
    tree.entryAt? (tree.locationOf path) = none ∧
      after = tree.put (tree.locationOf path) .directory := by
  have done := next_of_locateNew direct created
  split at done
  · cases done
  · rename_i free
    cases done
    exact ⟨by simpa using free, rfl⟩

/-- The entries of the first tree, and new directories on the way to the place. -/
structure LeadsTo (place : Location) (tree after : FileTree) : Prop where
  workingDirectory : after.workingDirectory = tree.workingDirectory
  entries : ∀ location, after.entryAt? location = tree.entryAt? location ∨
    (tree.entryAt? location = none ∧ after.entryAt? location = some .directory ∧ location <+: place)

namespace LeadsTo

variable {place wider : Location} {middle : FileTree}

theorem refl (place : Location) (tree : FileTree) : LeadsTo place tree tree :=
  ⟨rfl, fun _ => .inl rfl⟩

theorem trans (first : LeadsTo place tree middle) (second : LeadsTo place middle after) :
    LeadsTo place tree after := by
  refine ⟨second.workingDirectory.trans first.workingDirectory, fun location => ?_⟩
  rcases first.entries location with same | ⟨absent, made, inside⟩
  · rw [← same]
    exact second.entries location
  · rcases second.entries location with kept | ⟨gone, -⟩
    · exact .inr ⟨absent, kept.trans made, inside⟩
    · rw [made] at gone
      cases gone

theorem mono (leads : LeadsTo place tree after) (inside : place <+: wider) :
    LeadsTo wider tree after :=
  ⟨leads.workingDirectory, fun location => (leads.entries location).imp_right
    fun ⟨absent, made, within⟩ => ⟨absent, made, within.trans inside⟩⟩

theorem locationOf_eq (leads : LeadsTo place tree after) (path : Path) :
    after.locationOf path = tree.locationOf path := by
  rw [locationOf, locationOf, leads.workingDirectory]

end LeadsTo

theorem locationOf_parent (tree : FileTree) {parent : Path} (direct : path.Direct)
    (found : path.parent? = some parent) :
    parent.Direct ∧ tree.locationOf parent = (tree.locationOf path).dropLast := by
  obtain ⟨above, ground, last, names⟩ := direct.parent found
  refine ⟨above, ?_⟩
  rw [locationOf, locationOf, ground, names, ← List.append_assoc, List.dropLast_concat]

theorem leads_ensureOne (tree : FileTree) (direct : path.Direct) :
    LeadsTo (tree.locationOf path) tree (tree.ensureOne path).2 := by
  unfold ensureOne
  cases created : tree.createDirectory path with
  | error cause =>
    by_cases there : tree.isDirectory path <;> simp only [there] <;> exact .refl _ tree
  | ok after =>
    obtain ⟨absent, rfl⟩ := eq_of_createDirectory direct created
    have below : tree.locationOf path ≠ [] := by
      intro root
      rw [root] at absent
      cases absent
    refine ⟨rfl, fun location => ?_⟩
    rw [entryAt?_put below]
    by_cases here : location = tree.locationOf path
    · subst here
      exact .inr ⟨absent, if_pos rfl, List.prefix_refl _⟩
    · exact .inl (if_neg here)

theorem leads_ensureAll (above : Nat) (tree : FileTree) (direct : path.Direct) :
    LeadsTo (tree.locationOf path) tree (ensureAll above tree path).2 := by
  induction above generalizing tree path with
  | zero =>
    unfold ensureAll
    have tried := leads_ensureOne tree direct
    split
    · exact .refl _ tree
    · split
      · simp_all
      · exact tried
  | succ above ih =>
    unfold ensureAll
    have tried := leads_ensureOne tree direct
    split
    · exact .refl _ tree
    · split
      · rename_i middle missing
        rw [missing] at tried
        split
        · rename_i above parent counted found
          cases counted
          obtain ⟨upper, place⟩ := locationOf_parent middle direct found
          have below := (ih middle upper).mono (place ▸ List.dropLast_prefix _)
          rw [tried.locationOf_eq] at below
          have both := tried.trans below
          split
          · rename_i last made
            rw [made] at both
            have own := leads_ensureOne last direct
            rw [both.locationOf_eq] at own
            exact both.trans own
          · exact both
        · exact tried
      · exact tried

theorem leads_ensureDirectory (tree : FileTree) (direct : path.Direct) :
    LeadsTo (tree.locationOf path) tree ((access.ensureDirectory path).run.run tree).2 := by
  by_cases empty : path.text = []
  · rw [FileAccess.ensureDirectory, if_pos empty]
    exact .refl _ tree
  · have asked : (liftM (access.pathExists path) : ExceptT Failure (StateM FileTree) Bool).run.run
        tree = (.ok (tree.pathExists path), tree) := rfl
    rw [FileAccess.ensureDirectory, if_neg empty, ExceptT.run_bind, StateT.run_bind, asked]
    cases tree.pathExists path with
    | true => exact .refl _ tree
    | false => exact leads_ensureAll path.components.length tree direct

theorem write_of_writeText {text : Text}
    (accepted : (FileAccess.attempt (.writeFile path) (access.writeText path text)).run.run tree =
      (.ok (), after)) : tree.write path text = .ok after := by
  have ran : (FileAccess.attempt (.writeFile path) (access.writeText path text)).run.run tree =
      Prod.map (Except.mapError fun cause => ⟨[.writeFile path], cause⟩) id
        ((access.writeText path text).run.run tree) := rfl
  rw [ran] at accepted
  simp only [access, ExceptT.run, ExceptT.mk, StateT.run] at accepted
  cases written : tree.write path text with
  | error cause =>
    rw [written] at accepted
    cases accepted
  | ok last =>
    rw [written] at accepted
    cases accepted
    rfl

theorem exists_of_writer {text : Text} (direct : path.Direct)
    (accepted : (access.writer path text).run.run tree = (.ok (), after)) :
    ∃ middle, LeadsTo (tree.locationOf path).dropLast tree middle ∧
      middle.entryAt? (tree.locationOf path) ≠ some .directory ∧
      after = middle.put (tree.locationOf path) (.file (.text text)) := by
  unfold FileAccess.writer at accepted
  cases found : path.parent? with
  | none =>
    rw [found] at accepted
    exact ⟨tree, .refl _ tree, eq_of_write direct (write_of_writeText accepted)⟩
  | some parent =>
    obtain ⟨upper, place⟩ := locationOf_parent tree direct found
    have leads := leads_ensureDirectory tree upper
    rw [found, ExceptT.run_bind, StateT.run_bind] at accepted
    generalize (access.ensureDirectory parent).run.run tree = outcome at accepted leads
    rcases outcome with ⟨_ | _, middle⟩
    · cases accepted
    · have written := eq_of_write direct (write_of_writeText accepted)
      rw [leads.locationOf_eq] at written
      exact ⟨middle, place ▸ leads, written⟩

structure Vacant (tree : FileTree) (place : Location) : Prop where
  free : tree.entryAt? place = none ∨ tree.entryAt? place = some .directory
  nothing : ∀ name below, tree.entryAt? (place ++ name :: below) = none

end FileTree

end SchemaClasses
