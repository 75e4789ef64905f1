import NetBerth.LexicalPath

/-!
# The guard of a mount

The WebDAV handler joins the root of its mount and the path of a request, and answers Forbidden
unless the text of the cleaned root is the beginning of what comes out. For a root other than `/`
that is more, and for the root `.` it is something else, than that the path is the root or below it.
-/
namespace NetBerth.WebdavGuard
open LexicalPath

/-- What the guard comes to. What is served is handed to `http.FileServer`, whose own answer is left
out. -/
inductive Answer where
  | forbidden
  | notFound
  | served (isDir : Bool)
  deriving DecidableEq, Repr

/-- What `os.Stat` is asked for. -/
def target (root urlPath : Path) : Path := join [root, clean urlPath]

def webdav (stat : Path → Option Bool) (root urlPath : Path) : Answer :=
  let path := target root urlPath
  if ¬clean root <+: path then .forbidden
  else
    match stat path with
    | none => .notFound
    | some isDir => .served isDir

variable {stat : Path → Option Bool} {root urlPath : Path}

theorem webdav_forbidden_iff :
    webdav stat root urlPath = .forbidden ↔ ¬clean root <+: target root urlPath := by
  unfold webdav
  dsimp only
  split_ifs with hbegins
  · cases stat (target root urlPath) <;> simp [hbegins]
  · simp [hbegins]

theorem clean_target (root urlPath : Path) : clean (target root urlPath) = target root urlPath := by
  unfold target
  cases root with
  | nil => rw [join_nil_left, if_neg (clean_ne_nil urlPath), clean_clean]
  | cons b root => rw [join_pair (List.cons_ne_nil b root), clean_clean]

/-- What follows the root, if it is the beginning, is below it. -/
def Continues (root path : Path) : Prop :=
  ∀ rest, path = root ++ rest →
    rest = [] ∨ ∃ below, rest = separator :: below ∧ dotdot ∉ below.splitOn separator

/-- Where the beginning of the text decides as it should. -/
def Decided (root path : Path) : Prop :=
  root = [separator] ∨
    root = dot ∧ (isAbs path = true ∨ path.head? = some 0x2e ∧ dotdot ∉ path.splitOn separator) ∨
      root ≠ [separator] ∧ root ≠ dot ∧ Continues root path

section
variable {path : Path}

theorem separator_prefix_iff : [separator] <+: path ↔ isAbs path = true := by
  cases path with
  | nil => simp [isAbs]
  | cons b path => simp [isAbs, List.cons_prefix_cons, eq_comm]

theorem within_separator_iff : Within [separator] path ↔ isAbs path = true := by
  have helements : elements [separator] = [] := by decide
  constructor
  · exact fun h => h.isAbs
  · intro habs
    refine ⟨habs, elements path, ?_, (elements_resolved path).rooted habs⟩
    rw [helements, List.nil_append]

theorem within_dot_iff : Within dot path ↔ isAbs path = false ∧ dotdot ∉ elements path := by
  have helements : elements dot = [] := by decide
  constructor
  · rintro ⟨habs, names, hnames, hparent⟩
    rw [helements, List.nil_append] at hnames
    exact ⟨habs, hnames ▸ hparent⟩
  · rintro ⟨habs, hparent⟩
    refine ⟨habs, elements path, ?_, hparent⟩
    rw [helements, List.nil_append]

/-- A relative path with a parent in it begins with one. -/
theorem head_of_parent (hpath : clean path = path) (habs : isAbs path = false)
    (hparent : dotdot ∈ elements path) : path.head? = some 0x2e := by
  have hresolved := elements_resolved path
  cases hes : elements path with
  | nil => simp [hes] at hparent
  | cons first rest =>
    have hfirst : first = dotdot := by
      rw [hes] at hparent hresolved
      rcases List.mem_cons.mp hparent with h | h
      · exact h.symm
      · exact (List.pairwise_cons.mp hresolved.parents).1 dotdot h rfl
    rw [← hpath, clean, render, habs, hes, hfirst, if_neg Bool.false_ne_true,
      if_neg (List.cons_ne_nil _ _)]
    cases rest <;> rfl

theorem prefix_dot_iff_within (hpath : clean path = path) :
    (dot <+: path ↔ Within dot path) ↔
      isAbs path = true ∨ path.head? = some 0x2e ∧ dotdot ∉ path.splitOn separator := by
  have hhead : dot <+: path ↔ path.head? = some 0x2e := by
    cases path with
    | nil => simp [dot]
    | cons b path => simp [dot, List.cons_prefix_cons, eq_comm]
  have hsplit := @parent_mem_splitOn_clean path
  rw [hpath] at hsplit
  rw [hhead, within_dot_iff, hsplit]
  cases habs : isAbs path with
  | true =>
    have hslash : path.head? = some separator := of_decide_eq_true habs
    simp [hslash, separator]
  | false =>
    have hparent := head_of_parent hpath habs
    simp only [true_and, Bool.false_eq_true, false_or]
    tauto

/-- Below a root with a name, being the beginning is enough if nothing else begins like it. -/
theorem continues_of_within (hroot : clean root = root) (hpath : clean path = path)
    (hne : elements root ≠ []) (hexact : root <+: path → Within root path) :
    Continues root path := by
  rintro rest rfl
  cases rest with
  | nil => exact .inl rfl
  | cons b below =>
    right
    have hwithin := hexact (List.prefix_append root _)
    rcases eq_append_of_within hne hwithin with heq | ⟨below', heq⟩
    · rw [hpath, hroot] at heq
      cases List.append_cancel_left (heq.trans (List.append_nil root).symm)
    · rw [hpath, hroot] at heq
      cases List.append_cancel_left heq
      exact ⟨below, rfl, (within_iff_of_eq_append hne (by rw [hpath, hroot])).mp hwithin⟩

theorem within_of_continues (hroot : clean root = root) (hpath : clean path = path)
    (hne : elements root ≠ []) (hcontinues : Continues root path) (hbegins : root <+: path) :
    Within root path := by
  obtain ⟨rest, rfl⟩ := hbegins
  rcases hcontinues rest rfl with rfl | ⟨below, rfl, hparent⟩
  · rw [List.append_nil]
    exact ⟨rfl, [], (List.append_nil _).symm, List.not_mem_nil⟩
  · exact (within_iff_of_eq_append hne (by rw [hpath, hroot])).mpr hparent

theorem prefix_of_within (hroot : clean root = root) (hpath : clean path = path)
    (hne : elements root ≠ []) (hwithin : Within root path) : root <+: path := by
  rcases eq_append_of_within hne hwithin with heq | ⟨below, heq⟩
  · rw [hpath, hroot] at heq
    rw [heq]
  · rw [hpath, hroot] at heq
    rw [heq]
    exact List.prefix_append _ _

theorem prefix_iff_within (hroot : clean root = root) (hpath : clean path = path) :
    (root <+: path ↔ Within root path) ↔ Decided root path := by
  unfold Decided
  by_cases hslash : root = [separator]
  · subst hslash
    rw [separator_prefix_iff, within_separator_iff]
    simp
  by_cases hdot : root = dot
  · subst hdot
    rw [prefix_dot_iff_within hpath]
    simp [hslash]
  · have hne : elements root ≠ [] := elements_ne_nil (hroot.symm ▸ hslash) (hroot.symm ▸ hdot)
    simp only [hslash, hdot, false_or, false_and, not_false_eq_true, ne_eq, true_and]
    constructor
    · exact fun hexact => continues_of_within hroot hpath hne hexact.mp
    · exact fun hcontinues => ⟨within_of_continues hroot hpath hne hcontinues,
        prefix_of_within hroot hpath hne⟩

end

/-- The guard is right about a path exactly if the beginning of the text decides as it should. -/
theorem webdav_exact_iff (root urlPath : Path) :
    (∀ stat, webdav stat root urlPath = .forbidden ↔ ¬Within (clean root) (target root urlPath)) ↔
      Decided (clean root) (target root urlPath) := by
  rw [← prefix_iff_within (clean_clean root) (clean_target root urlPath)]
  simp only [webdav_forbidden_iff, not_iff_not]
  exact forall_const _

/-- A path with a slash before it does not leave a root. -/
theorem within_target (hroot : root ≠ []) (hurl : isAbs urlPath = true) :
    Within root (target root urlPath) := by
  have hresolved := elements_resolved urlPath
  rw [target, join_pair hroot, within_clean_right]
  exact within_append hroot fun hparent =>
    hresolved.rooted hurl (parent_mem_splitOn_clean.mp hparent)

/-- Nothing is blocked by a root that is more than a dot. -/
theorem not_forbidden_of_rooted (hroot : root ≠ []) (hurl : isAbs urlPath = true)
    (hdot : clean root ≠ dot) : webdav stat root urlPath ≠ .forbidden := by
  rw [Ne, webdav_forbidden_iff, not_not]
  have hwithin := within_target hroot hurl
  by_cases hslash : clean root = [separator]
  · rw [hslash, separator_prefix_iff, hwithin.isAbs, ← isAbs_clean, hslash]
    rfl
  · exact prefix_of_within (clean_clean root) (clean_target root urlPath)
      (by rw [elements_clean]; exact elements_ne_nil hslash hdot) (within_clean_left.mpr hwithin)

/-- The root `.` and a request for `/a`. -/
theorem working_directory_forbidden :
    ¬(webdav (fun _ => some false) [0x2e] [0x2f, 0x61] = .forbidden ↔
      ¬Within (clean [0x2e]) (target [0x2e] [0x2f, 0x61])) := by
  have hforbidden : webdav (fun _ => some false) [0x2e] [0x2f, 0x61] = .forbidden := by decide
  have hwithin : Within (clean [0x2e]) (target [0x2e] [0x2f, 0x61]) := by
    rw [within_clean_left]
    exact within_target (by decide) (by decide)
  exact fun h => h.mp hforbidden hwithin

end NetBerth.WebdavGuard
