import EmbeddedSolidity.Proofs.FileSystem.Walk

/-!
# Where paths lead

A path leads to a directory if its names reach it from where the path begins. What is at a path that
is joined from a base and simple names is found by walking on from the directory that the base leads
to.

* `Path.foldl_join_eq`, `Path.parts_foldl_join` : how a joined path is spelled, and its names;
* `FileTree.leads_of_entryAt`, `FileTree.entryAt_of_leads` : the directories at paths;
* `FileTree.leads_of_resolve`, `FileTree.resolve_of_leads` : what is at a joined path.
-/

namespace EmbeddedSolidity

namespace Text

theorem cut_append (separator : Char) (xs ys : List Char) :
    cut separator (xs ++ separator :: ys) = cut separator xs ++ cut separator ys := by
  induction xs with
  | nil => simp [cut]
  | cons x xs ih =>
    rw [List.cons_append, cut, cut, ih]
    split
    · rfl
    · cases h : cut separator xs with
      | nil => exact absurd h (cut_ne_nil separator xs)
      | cons piece pieces => rfl

theorem cut_of_not_mem {separator : Char} {cs : List Char} (h : separator ∉ cs) :
    cut separator cs = [cs] := by
  induction cs with
  | nil => rfl
  | cons c cs ih =>
    rw [List.mem_cons, not_or] at h
    rw [cut, if_neg (by simpa using Ne.symm h.1), ih h.2]

end Text

/-! ## Joined paths -/

namespace Path

/-- A text that is the name of one entry. -/
def Simple (name : String) : Prop :=
  name ≠ "" ∧ '/' ∉ name.toList

instance (name : String) : Decidable (Simple name) :=
  inferInstanceAs (Decidable (_ ∧ _))

theorem parts_simple {name : String} (h : Simple name) : parts name = [name] := by
  have hne : name.toList ≠ [] := fun he => h.1 (String.toList_inj.1 he)
  unfold parts
  rw [Text.cut_of_not_mem h.2]
  simp [hne]

/-- The names of a text with a slash in it. -/
theorem parts_append_slash (base path : String) :
    parts (base ++ "/" ++ path) = parts base ++ parts path := by
  have htext : (base ++ "/" ++ path).toList = base.toList ++ '/' :: path.toList := by simp
  unfold parts
  rw [htext, Text.cut_append, List.filter_append, List.map_append]

/-- The last slash of a text can be split off. -/
theorem exists_append_slash {base : String} (h : base.toList.getLast? = some '/') :
    ∃ front, base = front ++ "/" := by
  obtain ⟨cs, hcs⟩ := List.getLast?_eq_some_iff.1 h
  refine ⟨String.ofList cs, ?_⟩
  rw [← String.toList_inj]
  simpa using hcs

/-- A slash at the end of a text names nothing. -/
theorem parts_slash (front : String) : parts (front ++ "/") = parts front := by
  have hsplit := parts_append_slash front ""
  rw [String.append_empty] at hsplit
  exact hsplit.trans (List.append_nil _)

theorem join_empty (path : String) : join "" path = path := by
  unfold join
  rw [if_pos]
  exact Bool.or_true _

section Join

variable {base name : String}

theorem isAbsolute_simple (h : Simple name) : isAbsolute name = false := by
  unfold isAbsolute
  rw [beq_eq_false_iff_ne]
  exact fun hhead => h.2 (List.mem_of_mem_head? hhead)

/-- The slash that joining puts behind a base: none behind an empty one or another slash. -/
def joint (base : String) : String :=
  if base == "" || base.toList.getLast? == some '/' then "" else "/"

theorem joint_cases (base : String) : joint base = "" ∨ joint base = "/" := by
  unfold joint
  split_ifs
  exacts [Or.inl rfl, Or.inr rfl]

/-- A joined path continues its base. -/
theorem join_eq (h : Simple name) : join base name = base ++ joint base ++ name := by
  unfold join joint
  rw [isAbsolute_simple h, Bool.false_or]
  by_cases hbase : base = ""
  · rw [hbase]
    rfl
  · have hempty : (base == "") = false := beq_eq_false_iff_ne.2 hbase
    rw [hempty, Bool.false_or, if_neg Bool.false_ne_true]
    split_ifs
    · rw [String.append_empty]
    · rfl

theorem join_ne_empty (h : Simple name) : join base name ≠ "" := by
  rw [join_eq h, ne_eq, String.append_eq_empty_iff]
  exact fun he => h.1 he.2

/-- A slash is put between the parts of a joined path unless the base ends in one. -/
theorem utf8ByteSize_join (hbase : base ≠ "") (h : Simple name) :
    (join base name).utf8ByteSize = base.utf8ByteSize +
      (if base.toList.getLast? == some '/' then 0 else 1) + name.utf8ByteSize := by
  unfold join
  rw [isAbsolute_simple h, Bool.false_or, if_neg (by simpa using hbase)]
  split_ifs
  · rw [String.utf8ByteSize_append, Nat.add_zero]
  · rw [String.utf8ByteSize_append, String.utf8ByteSize_append]
    rfl

/-- The names of a joined path are those of both its parts. -/
theorem parts_join (h : Simple name) : parts (join base name) = parts base ++ [name] := by
  have hname := parts_simple h
  unfold join
  rw [isAbsolute_simple h, Bool.false_or]
  split_ifs with hbase hslash
  · obtain rfl := eq_of_beq hbase
    exact hname
  · obtain ⟨front, rfl⟩ := exists_append_slash (eq_of_beq hslash)
    rw [parts_append_slash, parts_slash, hname]
  · rw [parts_append_slash, hname]

theorem isAbsolute_join (hbase : base ≠ "") (h : Simple name) :
    isAbsolute (join base name) = isAbsolute base := by
  have hne : base.toList ≠ [] := fun he => hbase (String.toList_inj.1 he)
  unfold isAbsolute
  obtain ⟨c, cs, hcs⟩ := List.exists_cons_of_ne_nil hne
  rw [join_eq h, String.toList_append, String.toList_append, hcs]
  rfl

/-- A joined path does not end in a slash. -/
theorem endsInSlash_join (h : Simple name) :
    FileSystem.endsInSlash (join base name) = false := by
  have hlast : ∀ front, FileSystem.endsInSlash (front ++ name) = false := by
    intro front
    have hne : name.toList ≠ [] := fun he => h.1 (String.toList_inj.1 he)
    unfold FileSystem.endsInSlash
    rw [String.toList_append, List.getLast?_append, List.getLast?_eq_some_getLast hne,
      Option.some_or, beq_eq_false_iff_ne, ne_eq, Option.some_inj]
    exact fun hlast => h.2 (hlast ▸ List.getLast_mem hne)
  unfold join
  split_ifs
  · rw [← String.empty_append (s := name)]
    exact hlast ""
  · exact hlast base
  · exact hlast (base ++ "/")

/-- A slash is put behind a joined path. -/
theorem joint_join (h : Simple name) : joint (join base name) = "/" := by
  have hslash : FileSystem.endsInSlash (join base name) = false := endsInSlash_join h
  unfold FileSystem.endsInSlash at hslash
  unfold joint
  rw [hslash, beq_eq_false_iff_ne.2 (join_ne_empty h)]
  rfl

end Join

end Path

namespace FileSystem.FileTree

/-- Nothing is wrong with a path that has no NUL, is not empty and not too long. -/
theorem pathFault?_eq_none_iff {path : String} :
    pathFault? path = none ↔
      '\x00' ∉ path.toList ∧ path ≠ "" ∧ path.utf8ByteSize < maxPath := by
  unfold pathFault?
  constructor
  · intro h
    split_ifs at h with hnul hempty hlong
    exact ⟨by simpa using hnul, by simpa using hempty, Nat.not_le.1 hlong⟩
  · rintro ⟨hnul, hempty, hlong⟩
    rw [if_neg (by simpa using hnul), if_neg (by simpa using hempty), if_neg (Nat.not_le.2 hlong)]

section Join

variable {base name : String}

/-- What is wrong with a base is wrong with every path below it. -/
theorem pathFault?_of_join (hbase : base ≠ "") (h : Path.Simple name)
    (hjoin : pathFault? (Path.join base name) = none) : pathFault? base = none := by
  rw [pathFault?_eq_none_iff] at hjoin ⊢
  obtain ⟨hnul, -, hlong⟩ := hjoin
  rw [Path.join_eq h] at hnul hlong
  rw [String.utf8ByteSize_append, String.utf8ByteSize_append] at hlong
  refine ⟨fun hmem => hnul ?_, hbase, by omega⟩
  rw [String.toList_append, String.toList_append]
  exact List.mem_append_left _ (List.mem_append_left _ hmem)

theorem noNul_join (h : Path.Simple name) (hname : '\x00' ∉ name.toList)
    (hbase : '\x00' ∉ base.toList) : '\x00' ∉ (Path.join base name).toList := by
  have hslash : '\x00' ∉ (Path.joint base).toList := by
    rcases Path.joint_cases base with hjoint | hjoint <;> rw [hjoint] <;> decide
  rw [Path.join_eq h, String.toList_append, String.toList_append, List.mem_append, List.mem_append]
  rintro ((hmem | hmem) | hmem)
  exacts [hbase hmem, hslash hmem, hname hmem]

/-- Nothing is wrong with a joined path that is not too long. -/
theorem pathFault?_join_of_room (h : Path.Simple name) (hname : '\x00' ∉ name.toList)
    (hbase : pathFault? base = none)
    (hroom : base.utf8ByteSize + (1 + name.utf8ByteSize) < maxPath) :
    pathFault? (Path.join base name) = none ∧
      (Path.join base name).utf8ByteSize ≤ base.utf8ByteSize + (1 + name.utf8ByteSize) := by
  have hbytes : (Path.join base name).utf8ByteSize ≤
      base.utf8ByteSize + (1 + name.utf8ByteSize) := by
    have hslash : (Path.joint base).utf8ByteSize ≤ 1 := by
      rcases Path.joint_cases base with hjoint | hjoint <;> rw [hjoint] <;> decide
    rw [Path.join_eq h, String.utf8ByteSize_append, String.utf8ByteSize_append]
    omega
  exact ⟨pathFault?_eq_none_iff.2 ⟨noNul_join h hname (pathFault?_eq_none_iff.1 hbase).1,
    Path.join_ne_empty h, Nat.lt_of_le_of_lt hbytes hroom⟩, hbytes⟩

/-- A path that is joined from a base and clean names is at most too long. -/
theorem pathFault?_foldl_join_eq {names : List String} (hempty : base ≠ "")
    (hbase : '\x00' ∉ base.toList) (hnames : ∀ name ∈ names, Path.Simple name)
    (hclean : ∀ name ∈ names, '\x00' ∉ name.toList) :
    pathFault? (names.foldl Path.join base) =
      if maxPath ≤ (names.foldl Path.join base).utf8ByteSize then some .nameTooLong else none := by
  induction names generalizing base with
  | nil =>
    unfold pathFault?
    rw [List.foldl_nil, if_neg (by simpa using hbase), if_neg (by simpa using hempty)]
  | cons name names ih =>
    rw [List.forall_mem_cons] at hnames hclean
    exact ih (Path.join_ne_empty hnames.1) (noNul_join hnames.1 hclean.1 hbase)
      hnames.2 hclean.2

end Join

end FileSystem.FileTree

namespace Path

/-! ## Paths below a base -/

section Below

variable {base : String} {names : List String}

/-- The names of a path that is joined from a base and simple names. -/
theorem parts_foldl_join (h : ∀ name ∈ names, Simple name) :
    parts (names.foldl join base) = parts base ++ names := by
  induction names generalizing base with
  | nil => exact (List.append_nil _).symm
  | cons name names ih =>
    rw [List.forall_mem_cons] at h
    rw [List.foldl_cons, ih h.2, parts_join h.1, List.append_assoc, List.singleton_append]

/-- A path that is joined from names is its base, a slash unless there is one, and the names with
slashes between them. -/
theorem foldl_join_eq (hne : names ≠ []) (h : ∀ name ∈ names, Simple name) :
    names.foldl join base = base ++ joint base ++ "/".intercalate names := by
  induction names generalizing base with
  | nil => exact absurd rfl hne
  | cons name names ih =>
    rw [List.forall_mem_cons] at h
    rw [List.foldl_cons]
    by_cases hlast : names = []
    · rw [hlast, List.foldl_nil, String.intercalate_singleton, join_eq h.1]
    · rw [ih hlast h.2, joint_join h.1, join_eq h.1, String.intercalate_cons_of_ne_nil hlast]
      simp only [String.append_assoc]

theorem isAbsolute_foldl_join (hbase : base ≠ "") (h : ∀ name ∈ names, Simple name) :
    isAbsolute (names.foldl join base) = isAbsolute base := by
  induction names generalizing base with
  | nil => rfl
  | cons name names ih =>
    rw [List.forall_mem_cons] at h
    rw [List.foldl_cons, ih (join_ne_empty h.1) h.2, isAbsolute_join hbase h.1]

theorem pathFault?_foldl_join (hbase : base ≠ "") (h : ∀ name ∈ names, Simple name)
    (hfault : FileSystem.FileTree.pathFault? (names.foldl join base) = none) :
    FileSystem.FileTree.pathFault? base = none := by
  induction names generalizing base with
  | nil => exact hfault
  | cons name names ih =>
    rw [List.forall_mem_cons] at h
    exact FileSystem.FileTree.pathFault?_of_join hbase h.1 (ih (join_ne_empty h.1) h.2 hfault)

/-- The names of a path that is joined from something and a simple name, slash and all. -/
theorem namesOf_foldl_join (h : ∀ name ∈ names, Simple name) (hnames : names ≠ []) :
    FileSystem.namesOf (names.foldl join base) = parts base ++ names := by
  have hslash : FileSystem.endsInSlash (names.foldl join base) = false := by
    obtain ⟨front, last, rfl⟩ := List.eq_nil_or_concat names |>.resolve_left hnames
    rw [List.concat_eq_append, List.foldl_append]
    exact endsInSlash_join (h last (by simp))
  unfold FileSystem.namesOf
  dsimp only
  rw [hslash, Bool.false_and, parts_foldl_join h]
  rfl

end Below

end Path

/-! ## Directories at paths -/

namespace FileSystem.FileTree

variable {t t' : FileTree} {current p : Place} {path : String} {m : Nat}

/-- The path leads to the directory `p`, with `m` links left that may be followed. -/
structure Leads (t : FileTree) (current : Place) (path : String) (m : Nat) (p : Place) : Prop where
  fault : pathFault? path = none
  reaches : Reaches t maxLinks (startOf current path) (Path.parts path) m p

/-- The names of a path are followed by nothing or by the empty name that asks for a directory. -/
theorem namesOf_cases (path : String) :
    namesOf path = Path.parts path ∨ namesOf path = Path.parts path ++ [""] := by
  unfold namesOf
  dsimp only
  split_ifs
  · exact Or.inr rfl
  · exact Or.inl rfl

theorem resolveNames_eq (h : pathFault? path = none) (follow : Bool) (names : List String) :
    t.resolveNames current follow path names = t.walk follow maxLinks (startOf current path) names := by
  unfold resolveNames
  rw [h]

theorem resolve_of_fault {follow : Bool} {f : Fault} (h : pathFault? path = some f) :
    t.resolve current follow path = .error f := by
  unfold resolve resolveNames
  rw [h]

theorem pathFault?_of_resolveNames {follow : Bool} {names : List String} {r : Found}
    (h : t.resolveNames current follow path names = .ok r) : pathFault? path = none := by
  unfold resolveNames at h
  split at h
  · cases h
  · assumption

/-- An entry at a path is what the path is resolved to. -/
theorem resolve_of_entryAt {follow : Bool} {e : Entry}
    (h : t.entryAt current follow path = .ok (p, e)) :
    t.resolve current follow path = .ok (.entry p e) := by
  unfold entryAt at h
  split at h
  · next heq =>
    cases h
    exact heq
  · cases h
  · cases h

theorem entryAt_of_resolve {follow : Bool} {e : Entry}
    (h : t.resolve current follow path = .ok (.entry p e)) :
    t.entryAt current follow path = .ok (p, e) := by
  unfold entryAt
  rw [h]

/-- The path at which a directory is leads to it. -/
theorem leads_of_entryAt {follow : Bool}
    (h : t.entryAt current follow path = .ok (p, .directory)) : ∃ m, Leads t current path m p := by
  have hresolve := resolve_of_entryAt h
  have hfault := pathFault?_of_resolveNames hresolve
  rw [resolve, resolveNames_eq hfault] at hresolve
  rcases namesOf_cases path with hnames | hnames
  · rw [hnames] at hresolve
    obtain ⟨m, hreach⟩ := reaches_of_walk hresolve
    exact ⟨m, hfault, hreach⟩
  · rw [hnames] at hresolve
    rcases walk_append_cases t follow [""] _ _ _ hresolve with ⟨m, there, hreach, hw⟩ | ⟨-, hne⟩
    · rw [walk_skip (Or.inl rfl), walk_nil] at hw
      cases hw
      exact ⟨m, hfault, hreach⟩
    · exact absurd rfl (hne p)

/-- The directory that a path leads to is at the path. -/
theorem entryAt_of_leads (h : Leads t current path m p) :
    t.entryAt current true path = .ok (p, .directory) := by
  have hwalk : t.walk true maxLinks (startOf current path) (namesOf path)
      = .ok (.entry p .directory) := by
    rcases namesOf_cases path with hnames | hnames
    · rw [hnames]
      exact reaches_iff_walk.1 ⟨m, h.reaches⟩
    · rw [hnames, walk_append h.reaches (Or.inr rfl), walk_skip (Or.inl rfl), walk_nil]
  unfold entryAt resolve
  rw [resolveNames_eq h.fault, hwalk]

/-- A path that leads to a directory has something at it, be a link at its end followed or not. -/
theorem entryAt_false_of_leads (h : Leads t current path m p) :
    t.entryAt current false path = .ok (p, .directory) ∨
      ∃ q target, t.entryAt current false path = .ok (q, .link target) := by
  have hwalk : t.walk false maxLinks (startOf current path) (namesOf path)
        = .ok (.entry p .directory) ∨
      ∃ q target, t.walk false maxLinks (startOf current path) (namesOf path)
        = .ok (.entry q (.link target)) := by
    rcases namesOf_cases path with hnames | hnames
    · rw [hnames]
      exact h.reaches.walk_false
    · rw [hnames, walk_append h.reaches (Or.inl (List.cons_ne_nil _ _)), walk_skip (Or.inl rfl),
        walk_nil]
      exact Or.inl rfl
  unfold entryAt resolve
  rw [resolveNames_eq h.fault]
  exact hwalk.imp (fun h => by rw [h]) fun ⟨q, target, h⟩ => ⟨q, target, by rw [h]⟩

theorem Leads.unique {m' : Nat} {p' : Place} (h : Leads t current path m p)
    (hagree : AgreeOnWays t t') (h' : Leads t' current path m' p') : m' = m ∧ p' = p :=
  h.reaches.unique hagree h'.reaches

theorem Leads.mono (h : Leads t current path m p) (hkeeps : KeepsWays t t') :
    Leads t' current path m p :=
  ⟨h.fault, h.reaches.mono hkeeps⟩

/-! ## Entries at joined paths -/

section Joined

variable {base : String} {names : List String} {follow : Bool}

/-- The base of a joined path at which something is, or could be, leads to a directory. -/
theorem leads_of_resolve {r : Found} (hbase : base ≠ "")
    (hnames : ∀ name ∈ names, Path.Simple name) (hne : names ≠ [])
    (h : t.resolve current follow (names.foldl Path.join base) = .ok r) :
    ∃ m p, Leads t current base m p ∧ t.walk follow m p names = .ok r := by
  have hfault := pathFault?_of_resolveNames h
  rw [resolve, resolveNames_eq hfault, Path.namesOf_foldl_join hnames hne] at h
  unfold startOf at h
  rw [Path.isAbsolute_foldl_join hbase hnames] at h
  have hall : names.all (· == "") = false := by
    obtain ⟨name, rest, rfl⟩ := List.exists_cons_of_ne_nil hne
    rw [List.all_cons, beq_eq_false_iff_ne.2 (hnames name List.mem_cons_self).1, Bool.false_and]
  obtain ⟨m, p, hreach, hw⟩ := reaches_of_walk_append h hall
  exact ⟨m, p, ⟨Path.pathFault?_foldl_join hbase hnames hfault, hreach⟩, hw⟩

/-- From the directory that a base leads to, the names of a joined path are walked on. -/
theorem resolve_of_leads (hbase : base ≠ "") (hnames : ∀ name ∈ names, Path.Simple name)
    (hne : names ≠ []) (hfault : pathFault? (names.foldl Path.join base) = none)
    (h : Leads t current base m p) :
    t.resolve current follow (names.foldl Path.join base) = t.walk follow m p names := by
  rw [resolve, resolveNames_eq hfault, Path.namesOf_foldl_join hnames hne]
  unfold startOf
  rw [Path.isAbsolute_foldl_join hbase hnames]
  exact walk_append h.reaches (Or.inl hne)

/-- A path that is a name is walked from the current directory. -/
theorem resolve_simple {name : String} (hname : Path.Simple name) (hfault : pathFault? name = none) :
    t.resolve current follow name = t.walk follow maxLinks current [name] := by
  have hnames : namesOf (List.foldl Path.join "" [name]) = Path.parts "" ++ [name] :=
    Path.namesOf_foldl_join (List.forall_mem_singleton.2 hname) (List.cons_ne_nil _ _)
  have hjoin : Path.join "" name = name := if_pos (by rw [beq_self_eq_true, Bool.or_true])
  rw [List.foldl_cons, List.foldl_nil, hjoin] at hnames
  have hstart : startOf current name = current := by
    rw [startOf, Path.isAbsolute_simple hname, if_neg Bool.false_ne_true]
  rw [resolve, resolveNames_eq hfault, hnames, hstart]
  rfl

/-- The same for what the last name of a joined path stands for. -/
theorem resolveName_of_leads (hbase : base ≠ "") (hnames : ∀ name ∈ names, Path.Simple name)
    (hne : names ≠ []) (hfault : pathFault? (names.foldl Path.join base) = none)
    (h : Leads t current base m p) :
    t.resolveName current (names.foldl Path.join base) = t.walk false m p names := by
  rw [resolveName, resolveNames_eq hfault, Path.parts_foldl_join hnames]
  unfold startOf
  rw [Path.isAbsolute_foldl_join hbase hnames]
  exact walk_append h.reaches (Or.inl hne)

end Joined

end FileSystem.FileTree

end EmbeddedSolidity
