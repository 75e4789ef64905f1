import NetBerth.TextFields

/-!
# Paths as texts

A path is cut at its slashes into elements. To clean a path is to leave out the elements that are
empty or a dot, and to take each parent element together with the name before it; what is left over
of the parents are the first elements, and there are none in an absolute path. Nothing but the text
is looked at.
-/
namespace LexicalPath

abbrev Path := List UInt8

abbrev Element := List UInt8

def separator : UInt8 := 0x2f

def dot : Element := [0x2e]

def dotdot : Element := [0x2e, 0x2e]

def isAbs (path : Path) : Bool := path.head? = some separator

/-! ## Elements -/

/-- A parent takes the last name away. The last element comes first. -/
def parent (rooted : Bool) : List Element → List Element
  | [] => if rooted then [] else [dotdot]
  | last :: rest => if last = dotdot then dotdot :: last :: rest else rest

def resolve (rooted : Bool) (stack : List Element) (e : Element) : List Element :=
  if e = [] ∨ e = dot then stack
  else if e = dotdot then parent rooted stack
  else e :: stack

def elements (path : Path) : List Element :=
  ((path.splitOn separator).foldl (resolve (isAbs path)) []).reverse

/-- What is left when everything is resolved. -/
structure Resolved (rooted : Bool) (es : List Element) : Prop where
  plain : ∀ e ∈ es, e ≠ [] ∧ e ≠ dot ∧ separator ∉ e
  parents : es.Pairwise fun earlier later => later = dotdot → earlier = dotdot
  rooted : rooted = true → dotdot ∉ es

section
variable {rooted : Bool} {stack es : List Element} {e : Element}

theorem Resolved.nil : Resolved rooted [] := ⟨by simp, List.Pairwise.nil, by simp⟩

theorem parent_resolved (h : Resolved rooted stack.reverse) :
    Resolved rooted (parent rooted stack).reverse := by
  cases stack with
  | nil =>
    cases rooted with
    | true => exact .nil
    | false => exact ⟨by decide, by simp [parent], by simp⟩
  | cons last rest =>
    obtain ⟨hplain, hparents, hrooted⟩ := h
    rw [List.reverse_cons] at hplain hparents hrooted
    have hlastMem : last ∈ rest.reverse ++ [last] :=
      List.mem_append_right _ (List.mem_singleton_self _)
    rw [parent]
    split_ifs with hlast
    · -- All that is there are parents.
      subst hlast
      rw [List.reverse_cons, List.reverse_cons]
      refine ⟨fun e he => ?_, ?_, fun hroot => absurd hlastMem (hrooted hroot)⟩
      · rcases List.mem_append.mp he with he | he
        · exact hplain e he
        · rw [List.mem_singleton.mp he]
          exact hplain dotdot hlastMem
      · rw [List.pairwise_append]
        refine ⟨hparents, List.pairwise_singleton _ _, fun a ha _ _ _ => ?_⟩
        rcases List.mem_append.mp ha with ha | ha
        · exact (List.pairwise_append.mp hparents).2.2 a ha dotdot (List.mem_singleton_self _) rfl
        · exact List.mem_singleton.mp ha
    · exact ⟨fun e he => hplain e (List.mem_append_left _ he), (List.pairwise_append.mp hparents).1,
        fun hroot hmem => hrooted hroot (List.mem_append_left _ hmem)⟩

theorem resolve_resolved (h : Resolved rooted stack.reverse) (he : separator ∉ e) :
    Resolved rooted (resolve rooted stack e).reverse := by
  unfold resolve
  split_ifs with hskip hparent
  · exact h
  · exact parent_resolved h
  · rw [not_or] at hskip
    rw [List.reverse_cons]
    refine ⟨fun a ha => ?_, ?_, fun hroot hmem => ?_⟩
    · rcases List.mem_append.mp ha with ha | ha
      · exact h.plain a ha
      · rw [List.mem_singleton.mp ha]
        exact ⟨hskip.1, hskip.2, he⟩
    · rw [List.pairwise_append]
      refine ⟨h.parents, List.pairwise_singleton _ _, fun a _ b hb hdotdot => ?_⟩
      rw [List.mem_singleton.mp hb] at hdotdot
      exact absurd hdotdot hparent
    · rcases List.mem_append.mp hmem with hmem | hmem
      · exact h.rooted hroot hmem
      · exact hparent (List.mem_singleton.mp hmem).symm

theorem foldl_resolved (h : Resolved rooted stack.reverse) (hes : ∀ e ∈ es, separator ∉ e) :
    Resolved rooted (es.foldl (resolve rooted) stack).reverse := by
  induction es generalizing stack with
  | nil => exact h
  | cons e es ih =>
    rw [List.forall_mem_cons] at hes
    exact ih (resolve_resolved h hes.1) hes.2

theorem not_mem_of_mem_splitOn {path : Path} (h : e ∈ path.splitOn separator) : separator ∉ e := by
  intro hmem
  rw [List.splitOn_eq_splitOnP] at h
  have hne := (TextFields.mem_of_mem_splitOnP h separator hmem).2
  simp at hne

theorem elements_resolved (path : Path) : Resolved (isAbs path) (elements path) :=
  foldl_resolved .nil fun _ => not_mem_of_mem_splitOn

/-- What is resolved stays as it is. -/
theorem foldl_of_resolved (h : Resolved rooted (stack.reverse ++ es)) :
    es.foldl (resolve rooted) stack = es.reverse ++ stack := by
  induction es generalizing stack with
  | nil => rfl
  | cons e es ih =>
    have hmem : e ∈ stack.reverse ++ e :: es := List.mem_append_right _ List.mem_cons_self
    have hplain := h.plain e hmem
    have hstep : resolve rooted stack e = e :: stack := by
      rw [resolve, if_neg (not_or.mpr ⟨hplain.1, hplain.2.1⟩)]
      split_ifs with hparent
      · subst hparent
        cases stack with
        | nil =>
          cases rooted with
          | true => exact absurd hmem (h.rooted rfl)
          | false => rfl
        | cons last rest =>
          have hlast : last = dotdot := by
            refine (List.pairwise_append.mp h.parents).2.2 last ?_ dotdot List.mem_cons_self rfl
            rw [List.reverse_cons]
            exact List.mem_append_right _ (List.mem_singleton_self _)
          exact if_pos hlast
      · rfl
    rw [List.foldl_cons, hstep, ih, List.reverse_cons, List.append_assoc, List.singleton_append]
    rw [List.reverse_cons, List.append_assoc]
    exact h

/-- Without parents only what is empty or a dot is left out. -/
theorem foldl_of_no_parents (h : dotdot ∉ es) :
    es.foldl (resolve rooted) stack = (es.filter fun e => e ≠ [] ∧ e ≠ dot).reverse ++ stack := by
  induction es generalizing stack with
  | nil => rfl
  | cons e es ih =>
    rw [List.mem_cons, not_or] at h
    rw [List.foldl_cons, ih h.2, List.filter_cons]
    by_cases hskip : e = [] ∨ e = dot
    · rw [resolve, if_pos hskip, if_neg (by simpa [imp_iff_not_or] using hskip)]
    · rw [resolve, if_neg hskip, if_neg (Ne.symm h.1), if_pos (by simpa [not_or] using hskip),
        List.reverse_cons, List.append_assoc, List.singleton_append]

end

/-! ## Cleaning -/

def render (rooted : Bool) (es : List Element) : Path :=
  if rooted then separator :: [separator].intercalate es
  else if es = [] then dot
  else [separator].intercalate es

/-- `filepath.Clean`. -/
def clean (path : Path) : Path := render (isAbs path) (elements path)

/-- `filepath.Join`. -/
def join (paths : List Path) : Path :=
  match paths.dropWhile fun path => path = [] with
  | [] => []
  | rest => clean ([separator].intercalate rest)

/-- What is left of two lists after what they have in common. -/
def dropCommon : List Element → List Element → List Element × List Element
  | a :: as, b :: bs => if a = b then dropCommon as bs else (a :: as, b :: bs)
  | as, bs => (as, bs)

/-- `filepath.Rel`. -/
def rel (base target : Path) : Option Path :=
  if clean target = clean base then some dot
  else if isAbs base ≠ isAbs target then none
  else
    let (up, down) := dropCommon (elements base) (elements target)
    if up.head? = some dotdot then none
    else some ([separator].intercalate (up.map (fun _ => dotdot) ++ down))

section
variable {rooted : Bool} {es : List Element}

theorem splitOn_intercalate (h : Resolved rooted es) (hne : es ≠ []) :
    ([separator].intercalate es).splitOn separator = es :=
  List.splitOn_intercalate separator (fun e he => (h.plain e he).2.2) hne

theorem splitOn_cons (path : Path) :
    (separator :: path).splitOn separator = [] :: path.splitOn separator := by
  have hcut := @List.splitOn_append_cons_self _ _ _ separator [] path
  rwa [List.nil_append] at hcut

theorem isAbs_render (h : Resolved rooted es) : isAbs (render rooted es) = rooted := by
  unfold render
  split_ifs with hrooted hempty
  · rw [hrooted]
    rfl
  · rw [Bool.not_eq_true] at hrooted
    rw [hrooted]
    rfl
  · obtain ⟨e, rest, rfl⟩ := List.exists_cons_of_ne_nil hempty
    obtain ⟨hne, -, hseparator⟩ := h.plain e List.mem_cons_self
    obtain ⟨b, e, rfl⟩ := List.exists_cons_of_ne_nil hne
    have hb : b ≠ separator := fun hb => hseparator (hb ▸ List.mem_cons_self)
    have hhead : ([separator].intercalate ((b :: e) :: rest)).head? = some b := by
      cases rest with
      | nil => rfl
      | cons f rest => rfl
    rw [Bool.not_eq_true] at hrooted
    rw [isAbs, hhead, hrooted]
    simpa using hb

theorem elements_render (h : Resolved rooted es) : elements (render rooted es) = es := by
  have hfold : es.foldl (resolve rooted) [] = es.reverse ++ [] := foldl_of_resolved h
  rw [List.append_nil] at hfold
  rw [elements, isAbs_render h, render]
  split_ifs with hrooted hempty
  · rw [splitOn_cons, List.foldl_cons]
    by_cases hempty : es = []
    · subst hempty
      rfl
    · rw [splitOn_intercalate h hempty]
      change (es.foldl (resolve rooted) []).reverse = es
      rw [hfold, List.reverse_reverse]
  · subst hempty
    rfl
  · rw [splitOn_intercalate h hempty, hfold, List.reverse_reverse]

end

section
variable (path : Path)

@[simp] theorem isAbs_clean : isAbs (clean path) = isAbs path :=
  isAbs_render (elements_resolved path)

@[simp] theorem elements_clean : elements (clean path) = elements path :=
  elements_render (elements_resolved path)

@[simp] theorem clean_clean : clean (clean path) = clean path := by
  rw [clean, isAbs_clean, elements_clean, clean]

theorem clean_ne_nil : clean path ≠ [] := by
  have hne (es : List Element) (h : Resolved false es) (hempty : es ≠ []) :
      [separator].intercalate es ≠ [] := by
    intro hnil
    have hsplit := splitOn_intercalate h hempty
    rw [hnil] at hsplit
    exact (h.plain [] (hsplit ▸ List.mem_singleton_self _)).1 rfl
  have hresolved := elements_resolved path
  rw [clean, render]
  split_ifs with hrooted hempty
  · exact List.cons_ne_nil _ _
  · decide
  · rw [Bool.not_eq_true] at hrooted
    rw [hrooted] at hresolved
    exact hne _ hresolved hempty

end

theorem parent_mem_splitOn_clean : dotdot ∈ (clean path).splitOn separator ↔ dotdot ∈ elements path := by
  have hresolved := elements_resolved path
  rw [clean, render]
  split_ifs with hrooted hempty
  · rw [splitOn_cons]
    by_cases hempty : elements path = []
    · rw [hempty]
      decide
    · rw [splitOn_intercalate hresolved hempty, List.mem_cons]
      exact or_iff_right (by decide)
  · rw [hempty]
    decide
  · rw [splitOn_intercalate hresolved hempty]

/-- An element stands in the text. -/
theorem infix_of_mem_splitOn {path : Path} {e : Element} (h : e ∈ path.splitOn separator) :
    e <:+: path := by
  have hinfix (parts : List Element) (hmem : e ∈ parts) : e <:+: [separator].intercalate parts := by
    induction parts with
    | nil => cases hmem
    | cons part parts ih =>
      rcases List.mem_cons.mp hmem with rfl | hmem
      · cases parts with
        | nil => exact ⟨[], [], by simp⟩
        | cons other parts =>
          refine ⟨[], [separator] ++ [separator].intercalate (other :: parts), ?_⟩
          rw [List.intercalate_cons_cons, List.nil_append, List.append_assoc]
      · rw [List.intercalate_cons_of_ne_nil (List.ne_nil_of_mem hmem)]
        exact (ih hmem).trans (List.suffix_append _ _).isInfix
  have hpath := hinfix _ h
  rwa [List.intercalate_splitOn] at hpath

/-! ## One path after another -/

section
variable {path other : Path}

theorem isAbs_append (hne : path ≠ []) : isAbs (path ++ separator :: other) = isAbs path := by
  obtain ⟨b, rest, rfl⟩ := List.exists_cons_of_ne_nil hne
  rfl

/-- The elements of the second are resolved after those of the first. -/
theorem elements_append (hne : path ≠ []) : elements (path ++ separator :: other) =
    ((other.splitOn separator).foldl (resolve (isAbs path)) (elements path).reverse).reverse := by
  rw [elements, isAbs_append hne, List.splitOn_append_cons_self, List.foldl_append, elements,
    List.reverse_reverse]

theorem join_pair (hne : path ≠ []) : join [path, other] = clean (path ++ separator :: other) := by
  rw [join, List.dropWhile_cons_of_neg (by simpa using hne)]
  change clean ([separator].intercalate [path, other]) = _
  rw [List.intercalate_cons_cons, List.intercalate_singleton, List.append_assoc,
    List.singleton_append]

theorem join_nil_left : join [[], other] = if other = [] then [] else clean other := by
  rw [join, List.dropWhile_cons_of_pos (by simp)]
  split_ifs with hempty
  · subst hempty
    rfl
  · rw [List.dropWhile_cons_of_neg (by simpa using hempty)]
    change clean ([separator].intercalate [other]) = _
    rw [List.intercalate_singleton]

end

theorem dropCommon_append (es down : List Element) : dropCommon es (es ++ down) = ([], down) := by
  induction es with
  | nil => cases down <;> rfl
  | cons e es ih => rw [List.cons_append, dropCommon, if_pos rfl, ih]

/-- The path of the root, or one below it: after the elements of the root there are only names. -/
structure Within (root path : Path) : Prop where
  isAbs : isAbs path = isAbs root
  below : ∃ names, elements path = elements root ++ names ∧ dotdot ∉ names

section
variable {root path target : Path}

theorem within_clean_left : Within (clean root) path ↔ Within root path := by
  constructor
  · rintro ⟨habs, hbelow⟩
    exact ⟨habs.trans (isAbs_clean root), by rwa [elements_clean] at hbelow⟩
  · rintro ⟨habs, hbelow⟩
    exact ⟨habs.trans (isAbs_clean root).symm, by rwa [elements_clean]⟩

theorem within_clean_right : Within root (clean path) ↔ Within root path := by
  constructor
  · rintro ⟨habs, hbelow⟩
    exact ⟨(isAbs_clean path).symm.trans habs, by rwa [elements_clean] at hbelow⟩
  · rintro ⟨habs, hbelow⟩
    exact ⟨(isAbs_clean path).trans habs, by rwa [elements_clean]⟩

theorem clean_eq_clean_iff : clean path = clean root ↔
    isAbs path = isAbs root ∧ elements path = elements root := by
  constructor
  · intro heq
    have habs := congrArg LexicalPath.isAbs heq
    have helements := congrArg elements heq
    rw [isAbs_clean, isAbs_clean] at habs
    rw [elements_clean, elements_clean] at helements
    exact ⟨habs, helements⟩
  · rintro ⟨habs, helements⟩
    rw [clean, habs, helements, clean]

theorem elements_ne_nil (hroot : clean root ≠ [separator]) (hdot : clean root ≠ dot) :
    elements root ≠ [] := by
  intro hempty
  rw [clean, render, hempty] at hroot hdot
  cases habs : LexicalPath.isAbs root with
  | true => exact hroot (by rw [habs]; rfl)
  | false => exact hdot (by rw [habs]; rfl)

/-- A cleaned path is cut into its elements. -/
theorem splitOn_clean (hne : elements path ≠ []) : (clean path).splitOn separator =
    (if LexicalPath.isAbs path then [[]] else []) ++ elements path := by
  have hresolved := elements_resolved path
  rw [clean, render]
  split_ifs
  · rw [splitOn_cons, splitOn_intercalate hresolved hne]
    rfl
  · rw [splitOn_intercalate hresolved hne]
    rfl

theorem splitOn_names {names : List Element} (helements : elements path = elements root ++ names)
    (hne : names ≠ []) : ([separator].intercalate names).splitOn separator = names := by
  refine List.splitOn_intercalate separator (fun e he => ?_) hne
  refine ((elements_resolved path).plain e ?_).2.2
  rw [helements]
  exact List.mem_append_right _ he

/-- What follows the root and a slash has to be without parents. -/
theorem within_iff_of_eq_append {rest : Path} (hne : elements root ≠ [])
    (hpath : clean path = clean root ++ separator :: rest) :
    Within root path ↔ dotdot ∉ rest.splitOn separator := by
  have habs : LexicalPath.isAbs path = LexicalPath.isAbs root := by
    rw [← isAbs_clean path, hpath, isAbs_append (clean_ne_nil root), isAbs_clean]
  have hlength : 1 < (clean path).length := by
    have hpos := List.length_pos_of_ne_nil (clean_ne_nil root)
    rw [hpath, List.length_append, List.length_cons]
    omega
  have hpathNe : elements path ≠ [] := by
    apply elements_ne_nil
    · intro heq
      rw [heq] at hlength
      exact lt_irrefl 1 hlength
    · intro heq
      rw [heq] at hlength
      exact lt_irrefl 1 hlength
  have helements : elements path = elements root ++ rest.splitOn separator := by
    have hsplit := splitOn_clean hpathNe
    rw [hpath, List.splitOn_append_cons_self, splitOn_clean hne, habs, List.append_assoc] at hsplit
    exact (List.append_cancel_left hsplit).symm
  constructor
  · rintro ⟨-, names, hnames, hparent⟩
    rw [helements] at hnames
    rwa [List.append_cancel_left hnames]
  · exact fun hparent => ⟨habs, _, helements, hparent⟩

/-- A path below the root is the root with something after a slash. -/
theorem eq_append_of_within (hne : elements root ≠ []) (h : Within root path) :
    clean path = clean root ∨ ∃ rest, clean path = clean root ++ separator :: rest := by
  obtain ⟨habs, names, helements, -⟩ := h
  by_cases hempty : names = []
  · subst hempty
    rw [List.append_nil] at helements
    exact .inl (clean_eq_clean_iff.mpr ⟨habs, helements⟩)
  · right
    refine ⟨[separator].intercalate names, ?_⟩
    have hpathNe : elements path ≠ [] := by
      rw [helements]
      exact List.append_ne_nil_of_left_ne_nil hne _
    have hpath : (clean path).splitOn separator =
        (clean root ++ separator :: [separator].intercalate names).splitOn separator := by
      rw [List.splitOn_append_cons_self, splitOn_names helements hempty, splitOn_clean hne,
        splitOn_clean hpathNe, habs, helements, List.append_assoc]
    have hjoin := congrArg (List.intercalate [separator]) hpath
    rwa [List.intercalate_splitOn, List.intercalate_splitOn] at hjoin

/-- The way from a root to a path below it leads over no parent. -/
theorem rel_of_within (h : Within root path) :
    ∃ r, rel root path = some r ∧ dotdot ∉ r.splitOn separator := by
  obtain ⟨habs, names, helements, hnames⟩ := h
  unfold rel
  split_ifs with hsame hother
  · exact ⟨dot, rfl, by decide⟩
  · exact absurd habs.symm hother
  · rw [helements, dropCommon_append]
    have hne : names ≠ [] := by
      rintro rfl
      rw [List.append_nil] at helements
      exact hsame (clean_eq_clean_iff.mpr ⟨habs, helements⟩)
    refine ⟨[separator].intercalate names, rfl, ?_⟩
    rw [splitOn_names helements hne]
    exact hnames

/-- A target without parents does not leave the root. -/
theorem within_append (hne : root ≠ []) (htarget : dotdot ∉ target.splitOn separator) :
    Within root (root ++ separator :: target) := by
  refine ⟨isAbs_append hne, (target.splitOn separator).filter fun e => e ≠ [] ∧ e ≠ dot, ?_, ?_⟩
  · rw [elements_append hne, foldl_of_no_parents htarget, List.reverse_append, List.reverse_reverse,
      List.reverse_reverse]
  · exact fun hmem => htarget (List.mem_of_mem_filter hmem)

end

end LexicalPath
