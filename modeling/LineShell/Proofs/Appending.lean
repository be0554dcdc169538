import LineShell.Machine

/-!
Appending to a file and reading it again. A path leads to the same place before and after the file
there is written, through the same links and directories.
-/

namespace LineShell

namespace FileTree

theorem lookup_append_single (entries : List (Path × Entry)) (path q : Path) (e : Entry) :
    (entries ++ [(path, e)]).lookup q =
      (entries.lookup q).or (if q = path then some e else none) := by
  induction entries with
  | nil => by_cases same : q = path <;> simp [same]
  | cons first rest ih =>
    obtain ⟨key, old⟩ := first
    rw [List.cons_append, List.lookup_cons, List.lookup_cons, ih]
    cases q == key <;> rfl

theorem lookup_filter_ne (entries : List (Path × Entry)) (path q : Path) :
    (entries.filter fun e => e.1 ≠ path).lookup q =
      if q = path then none else entries.lookup q := by
  induction entries with
  | nil => simp
  | cons first rest ih =>
    obtain ⟨key, old⟩ := first
    by_cases dropped : key = path
    · subst dropped
      rw [List.filter_cons_of_neg (by simp), ih, List.lookup_cons]
      split
      · rfl
      · rename_i differs
        rw [beq_eq_false_iff_ne.mpr differs]
    · rw [List.filter_cons_of_pos (by simpa using dropped), List.lookup_cons, List.lookup_cons, ih]
      by_cases same : q = key
      · subst same
        simp [dropped]
      · rw [beq_eq_false_iff_ne.mpr same]

theorem find?_put {path : Path} (named : path ≠ []) (tree : FileTree) (e : Entry) (q : Path) :
    (tree.put path e).find? q = if q = path then some e else tree.find? q := by
  unfold find? put
  by_cases root : q = []
  · subst root
    rw [if_pos rfl, if_pos rfl, if_neg (Ne.symm named)]
  · rw [if_neg root, if_neg root, lookup_append_single, lookup_filter_ne]
    by_cases same : q = path <;> simp [same]

/-- A file has the path, or nothing has it. -/
def Free (tree : FileTree) (path : Path) : Prop :=
  ∀ e, tree.find? path = some e → ∃ f, e = .file f

theorem Free.ne_nil {tree : FileTree} {path : Path} (free : tree.Free path) : path ≠ [] := by
  rintro rfl
  obtain ⟨f, root⟩ := free (.directory .root) rfl
  cases root

theorem allows_of_free {tree : FileTree} {place : Place} (free : tree.Free place.path)
    (permission : Permissions → Bool) : tree.allows place permission = decide (0 < place.gone) := by
  unfold allows
  split
  · rename_i gone
    rw [decide_eq_true gone]
  · rename_i present
    rw [decide_eq_false present]
    split
    · rename_i permissions found
      obtain ⟨f, clash⟩ := free _ found
      cases clash
    · rfl

theorem free_put {tree : FileTree} {path : Path} (named : path ≠ []) (f : File) :
    (tree.put path (.file f)).Free path := by
  intro e found
  rw [find?_put named, if_pos rfl] at found
  exact ⟨f, (Option.some.inj found).symm⟩

theorem allows_put {tree : FileTree} {path : Path} (free : tree.Free path) (f : File)
    (place : Place) (permission : Permissions → Bool) :
    (tree.put path (.file f)).allows place permission = tree.allows place permission := by
  by_cases same : place.path = path
  · subst same
    rw [allows_of_free free, allows_of_free (free_put free.ne_nil f)]
  · unfold allows
    rw [find?_put free.ne_nil, if_neg same]

/-- The path of a file, or of the name where one can be created. -/
def Spot.path? : Spot → Option Path
  | .directory _ => none
  | .file path _ => some path
  | .vacant path => some path

/-- The name is looked up in the directory: it is not one of the special names, and nothing refuses
it. -/
structure LooksUp (tree : FileTree) (aim : Aim) (start : Place) (name : String)
    (rest : List String) : Prop where
  named : name ≠ ""
  allowed : tree.allows start Permissions.canRun = true
  other : name ≠ "." ∧ name ≠ ".."
  fileAtEnd : ¬(aim = .create ∧ rest ≠ [] ∧ rest.all (· = ""))
  short : ¬maxNameBytes < name.utf8ByteSize
  present : ¬0 < start.gone

/-- The ways in which a walk reaches a spot. -/
inductive Leads (tree : FileTree) (aim : Aim) : Nat → Place → List String → Spot → Prop where
  | here {links : Nat} {start : Place} : Leads tree aim links start [] (.directory start)
  | skip {links : Nat} {start : Place} {rest : List String} {spot : Spot} :
      Leads tree aim links start rest spot → Leads tree aim links start ("" :: rest) spot
  | stay {links : Nat} {start : Place} {rest : List String} {spot : Spot} :
      tree.allows start Permissions.canRun = true → Leads tree aim links start rest spot →
        Leads tree aim links start ("." :: rest) spot
  | up {links : Nat} {start : Place} {rest : List String} {spot : Spot} :
      tree.allows start Permissions.canRun = true → Leads tree aim links start.parent rest spot →
        Leads tree aim links start (".." :: rest) spot
  | vacant {links : Nat} {start : Place} {name : String} :
      tree.LooksUp aim start name [] → tree.find? (start.path ++ [name]) = none →
        Leads tree aim links start [name] (.vacant (start.path ++ [name]))
  | file {links : Nat} {start : Place} {name : String} {f : File} :
      tree.LooksUp aim start name [] → tree.find? (start.path ++ [name]) = some (.file f) →
        Leads tree aim links start [name] (.file (start.path ++ [name]) f)
  | directory {links : Nat} {start : Place} {name : String} {rest : List String} {spot : Spot}
      {permissions : Permissions} :
      tree.LooksUp aim start name rest →
        tree.find? (start.path ++ [name]) = some (.directory permissions) →
        Leads tree aim links ⟨start.path ++ [name], 0⟩ rest spot →
        Leads tree aim links start (name :: rest) spot
  | link {more : Nat} {start : Place} {name target : String} {rest : List String} {spot : Spot} :
      tree.LooksUp aim start name rest →
        tree.find? (start.path ++ [name]) = some (.link target) →
        Leads tree aim more (if target.toList.head? = some '/' then Place.root else start)
          (Path.ofString target ++ rest) spot →
        Leads tree aim (more + 1) start (name :: rest) spot

section Walks

variable {tree : FileTree} {aim : Aim} {links : Nat} {start : Place} {names : List String}
  {spot : Spot} {path : Path}

theorem Leads.of_walk (ok : tree.walk aim links start names = .ok spot) :
    tree.Leads aim links start names spot := by
  fun_induction tree.walk aim links start names with
  | case1 links start =>
    cases ok
    exact .here
  | case2 links start rest ih => exact .skip (ih ok)
  | case4 links start rest allowed _ ih => exact .stay (by simpa using allowed) (ih ok)
  | case5 links start rest allowed _ _ ih => exact .up (by simpa using allowed) (ih ok)
  | case9 links start name named allowed same up short present path missing refused =>
    cases ok
    exact .vacant ⟨named, by simpa using allowed, ⟨same, up⟩, refused, short, present⟩ missing
  | case11 links start name rest named allowed same up refused short present path _ found ih =>
    exact .directory ⟨named, by simpa using allowed, ⟨same, up⟩, refused, short, present⟩ found
      (ih ok)
  | case12 links start name named allowed same up short present path f found refused =>
    cases ok
    exact .file ⟨named, by simpa using allowed, ⟨same, up⟩, refused, short, present⟩ found
  | case15 start name rest named allowed same up refused short present path target found more _ ih =>
    exact .link ⟨named, by simpa using allowed, ⟨same, up⟩, refused, short, present⟩ found (ih ok)
  | case3 | case6 | case7 | case8 | case10 | case13 | case14 => cases ok

theorem LooksUp.walk_cons {name : String} {rest : List String}
    (looks : tree.LooksUp aim start name rest) :
    tree.walk aim links start (name :: rest) =
      let path := start.path ++ [name]
      match tree.find? path with
      | none => if rest = [] then .ok (.vacant path) else .error .notFound
      | some (.directory _) => tree.walk aim links ⟨path, 0⟩ rest
      | some (.file file) => if rest = [] then .ok (.file path file) else .error .notADirectory
      | some (.link target) =>
        match links with
        | 0 => .error .tooManyLinks
        | more + 1 =>
          let start := if target.toList.head? = some '/' then Place.root else start
          tree.walk aim more start (Path.ofString target ++ rest) := by
  rewrite [walk, if_neg looks.named, if_neg (by simp [looks.allowed]), if_neg looks.other.1,
    if_neg looks.other.2, if_neg looks.fileAtEnd, if_neg looks.short, if_neg looks.present]
  rfl

theorem Leads.walk_eq (leads : tree.Leads aim links start names spot) :
    tree.walk aim links start names = .ok spot := by
  induction leads with
  | here => rw [walk]
  | skip _ ih => rw [walk, if_pos rfl, ih]
  | stay allowed _ ih =>
    rw [walk, if_neg (by decide), if_neg (by simp [allowed]), if_pos rfl, ih]
  | up allowed _ ih =>
    rw [walk, if_neg (by decide), if_neg (by simp [allowed]), if_neg (by decide), if_pos rfl, ih]
  | vacant looks missing => simp only [looks.walk_cons, missing, if_true]
  | file looks found => simp only [looks.walk_cons, found, if_true]
  | directory looks found _ ih => simp only [looks.walk_cons, found, ih]
  | link looks found _ ih => simp only [looks.walk_cons, found, ih]

theorem Leads.free (leads : tree.Leads aim links start names spot)
    (reached : spot.path? = some path) : tree.Free path := by
  induction leads with
  | here => cases reached
  | vacant looks missing =>
    cases reached
    intro e found
    rw [missing] at found
    cases found
  | file looks found =>
    cases reached
    intro e found'
    rw [found] at found'
    cases found'
    exact ⟨_, rfl⟩
  | skip _ ih | stay _ _ ih | up _ _ ih | directory _ _ _ ih | link _ _ _ ih => exact ih reached

theorem LooksUp.find {name : String} {rest : List String}
    (looks : tree.LooksUp .create start name rest) : tree.LooksUp .find start name rest :=
  { looks with fileAtEnd := by simp }

/- Where a file can be created, finding it leads to the same place: the aim only adds a refusal. -/
theorem Leads.find (leads : tree.Leads .create links start names spot) :
    tree.Leads .find links start names spot := by
  induction leads with
  | here => exact .here
  | skip _ ih => exact .skip ih
  | stay allowed _ ih => exact .stay allowed ih
  | up allowed _ ih => exact .up allowed ih
  | vacant looks missing => exact .vacant looks.find missing
  | file looks found => exact .file looks.find found
  | directory looks found _ ih => exact .directory looks.find found ih
  | link looks found _ ih => exact .link looks.find found ih

theorem LooksUp.put (free : tree.Free path) (f : File) {name : String} {rest : List String}
    (looks : tree.LooksUp aim start name rest) :
    (tree.put path (.file f)).LooksUp aim start name rest :=
  { looks with allowed := (allows_put free f start _).trans looks.allowed }

/- A directory or a link is not at the path of the file. -/
theorem Free.find?_put_other (free : tree.Free path) (f : File) {q : Path} {e : Entry}
    (found : tree.find? q = some e) (other : ∀ f, e ≠ .file f) :
    (tree.put path (.file f)).find? q = some e := by
  rw [find?_put free.ne_nil, if_neg ?_, found]
  rintro rfl
  obtain ⟨f, same⟩ := free e found
  exact other f same

theorem Leads.put (leads : tree.Leads .find links start names spot)
    (reached : spot.path? = some path) (f : File) :
    (tree.put path (.file f)).Leads .find links start names (.file path f) := by
  have free := leads.free reached
  have put : (tree.put path (.file f)).find? path = some (.file f) := by
    rw [find?_put free.ne_nil, if_pos rfl]
  induction leads with
  | here => cases reached
  | skip _ ih => exact .skip (ih reached)
  | stay allowed _ ih => exact .stay ((allows_put free f _ _).trans allowed) (ih reached)
  | up allowed _ ih => exact .up ((allows_put free f _ _).trans allowed) (ih reached)
  | vacant looks _ =>
    cases reached
    exact .file (looks.put free f) put
  | file looks _ =>
    cases reached
    exact .file (looks.put free f) put
  | directory looks found _ ih =>
    exact .directory (looks.put free f) (free.find?_put_other f found (by simp)) (ih reached)
  | link looks found _ ih =>
    exact .link (looks.put free f) (free.find?_put_other f found (by simp)) (ih reached)

end Walks

theorem locate_put {tree : FileTree} {dir : Place} {name : String} {spot : Spot} {path : Path}
    (ok : tree.locate .create dir name = .ok spot) (leads : spot.path? = some path) (f : File) :
    tree.locate .find dir name = .ok spot ∧
      (tree.put path (.file f)).locate .find dir name = .ok (.file path f) := by
  simp only [locate] at ok ⊢
  split at ok
  · cases ok
  split at ok
  · cases ok
  split at ok
  · cases ok
  simp only [*, if_false]
  have found := (Leads.of_walk ok).find
  exact ⟨found.walk_eq, (found.put leads f).walk_eq⟩

/- What stood in the file stays in front; a file that was missing is created. -/
theorem read_append {tree tree' : FileTree} {dir : Place} {name : String} {bytes : ByteArray}
    (ok : tree.append dir name bytes = .ok tree') :
    (∀ old, tree.read dir name = .ok old → tree'.read dir name = .ok (old ++ bytes)) ∧
      (tree.read dir name = .error .notFound → tree'.read dir name = .ok bytes) := by
  unfold append at ok
  cases located : tree.locate .create dir name with
  | error e => simp [located] at ok
  | ok spot =>
    cases spot with
    | directory place => simp [located] at ok
    | file path file =>
      simp only [located] at ok
      split at ok <;> cases ok
      obtain ⟨before, after⟩ :=
        locate_put located rfl { file with body := .data (file.bytes ++ bytes) }
      unfold read
      rw [before, after]
      constructor
      · intro old found
        dsimp only at found
        split at found
        · rename_i readable
          cases found
          exact if_pos readable
        · cases found
      · intro missing
        dsimp only at missing
        split at missing <;> cases missing
    | vacant path =>
      simp only [located] at ok
      split at ok <;> cases ok
      obtain ⟨before, after⟩ := locate_put located rfl ⟨.data bytes, .personal⟩
      unfold read
      rw [before, after]
      constructor
      · intro old found
        cases found
      · intro missing
        have readable : Permissions.personal.canRead = true := by decide
        exact if_pos readable

end FileTree

/-- A host that keeps what is appended to a file, behind what the file had. -/
structure Host.Appends {σ : Type} (host : Host σ) (path : String) : Prop where
  grown : ∀ {world world' : σ} {text : String} {old : ByteArray},
    host.appendFile world path text = .ok world' → host.readFile world path = .ok old →
      host.readFile world' path = .ok (old ++ text.toUTF8)
  created : ∀ {world world' : σ} {text : String},
    host.appendFile world path text = .ok world' → host.readFile world path = .error .notFound →
      host.readFile world' path = .ok text.toUTF8

theorem Machine.appendFile_inv {m m' : Machine} {path text : String}
    (ok : host.appendFile m path text = .ok m') :
    m.tree.append m.dir path text.toUTF8 = .ok m'.tree ∧ m'.dir = m.dir := by
  cases appended : m.tree.append m.dir path text.toUTF8 with
  | error e =>
    simp only [host, appended, Except.map] at ok
    cases ok
  | ok tree =>
    simp only [host, appended, Except.map, Except.ok.injEq] at ok
    subst ok
    exact ⟨rfl, rfl⟩

theorem Machine.host_appends (path : String) : host.Appends path where
  grown := by
    intro m m' text old ok read
    obtain ⟨appended, dir⟩ := appendFile_inv ok
    change m'.tree.read m'.dir path = _
    rw [dir]
    exact (FileTree.read_append appended).1 old read
  created := by
    intro m m' text ok missing
    obtain ⟨appended, dir⟩ := appendFile_inv ok
    change m'.tree.read m'.dir path = _
    rw [dir]
    exact (FileTree.read_append appended).2 missing

end LineShell
