import TagBox.Run.Folder
import Mathlib.Data.List.Nodup
import Mathlib.Tactic.Common

/-!
# Places in a folder

On a disk the entries of a folder have names of their own, and a path can say each of them; here they are
listed in the order of their names.  Then names lead to one entry at most, an entry can be exchanged without
a trace on what is not below it, and what a path leads to depends on folders and names alone, not on what
files hold.

Each file is at one place: links, by which a disk has the same file under several names, do not occur.

* `Entry.Proper` — a tree as there are on a disk; `Entry.proper_ofEntries`, `Entry.Proper.place` say that
  trees are built so.
* `Entry.Leads` — what names lead to, step by step; `Entry.Proper.leads` ties it to the look-up.
* `Entry.Leads.updateAt`, `Entry.Leads.at?_updateAt` — the place that changed, and all others.
* `Entry.shape` — a tree without what its files hold; `Entry.resolve_shape` says that paths do not care.
* `Entry.resolve_join` — the path of an entry of a folder.
* `Entry.contentAt?` — what the file at a place holds.
-/

namespace TagBox

namespace Entry

/-! ## Trees as on a disk -/

/-- An entry of a folder can have the name: a path is able to say it. -/
def IsName (name : Text) : Prop :=
  name ≠ [] ∧ name ≠ ['.'] ∧ name ≠ ['.', '.'] ∧ '/' ∉ name

instance (name : Text) : Decidable (IsName name) :=
  inferInstanceAs (Decidable (_ ∧ _))

theorem induct {P : Entry → Prop} (file : ∀ name content, P (.file name content))
    (folder : ∀ name entries, (∀ e ∈ entries, P e) → P (.folder name entries)) (e : Entry) : P e := by
  refine @Entry.rec P (fun entries => ∀ e ∈ entries, P e) file folder ?_ ?_ e
  · simp
  · intro e entries he hentries
    exact List.forall_mem_cons.2 ⟨he, hentries⟩

/-- The entries are in the order of their names, and no two have the same. -/
def Sorted (entries : List Entry) : Prop :=
  entries.Pairwise fun a b => Text.before a.name b.name = true

theorem Sorted.nodup {entries : List Entry} (h : Sorted entries) : (entries.map Entry.name).Nodup := by
  rw [List.Nodup, List.pairwise_map]
  exact h.imp fun hab => Text.ne_of_before hab

/-- The entries of each folder have names, no two of them the same, and are in the order of names. -/
inductive Proper : Entry → Prop
  | file (name : Text) (content : Content) : Proper (.file name content)
  | folder {name : Text} {entries : List Entry} (hnames : ∀ e ∈ entries, IsName e.name)
      (hsorted : Sorted entries) (h : ∀ e ∈ entries, Proper e) : Proper (.folder name entries)

section Building

variable {name here : Text} {e x : Entry} {entries : List Entry}

theorem eq_or_mem_of_mem_insert (h : x ∈ insert e entries) : x = e ∨ x ∈ entries := by
  induction entries with
  | nil => exact Or.inl (by simpa [insert] using h)
  | cons other more ih =>
    rw [insert] at h
    split_ifs at h
    · exact (List.mem_cons.1 h).imp_right (List.mem_cons_of_mem other)
    · exact List.mem_cons.1 h
    · rcases List.mem_cons.1 h with rfl | h
      · exact Or.inr List.mem_cons_self
      · exact (ih h).imp_right (List.mem_cons_of_mem other)

theorem Sorted.insert (h : Sorted entries) (e : Entry) : Sorted (insert e entries) := by
  induction entries with
  | nil => exact List.pairwise_singleton _ _
  | cons other more ih =>
    obtain ⟨hother, hmore⟩ := List.pairwise_cons.1 h
    rw [Entry.insert]
    split_ifs with hname hat
    · exact List.pairwise_cons.2 ⟨fun x hx => hname ▸ hother x hx, hmore⟩
    · refine List.pairwise_cons.2 ⟨?_, h⟩
      rw [List.forall_mem_cons]
      exact ⟨Text.before_of_atMost hat hname,
        fun x hx => Text.before_of_atMost_of_before hat (hother x hx)⟩
    · refine List.pairwise_cons.2 ⟨fun x hx => ?_, ih hmore⟩
      rcases eq_or_mem_of_mem_insert hx with rfl | hx
      · simpa [Text.before] using hat
      · exact hother x hx

theorem Proper.insert (h : (Entry.folder here entries).Proper) (he : e.Proper) (hname : IsName e.name) :
    (Entry.folder here (Entry.insert e entries)).Proper := by
  cases h with
  | folder hnames hsorted hproper =>
    refine .folder (fun x hx => ?_) (hsorted.insert e) fun x hx => ?_
    · rcases eq_or_mem_of_mem_insert hx with rfl | hx
      · exact hname
      · exact hnames x hx
    · rcases eq_or_mem_of_mem_insert hx with rfl | hx
      · exact he
      · exact hproper x hx

/-- A folder that is made of proper entries is proper. -/
theorem proper_ofEntries (name : Text) (h : ∀ e ∈ entries, e.Proper ∧ IsName e.name) :
    (ofEntries name entries).Proper := by
  induction entries with
  | nil => exact .folder (by simp) .nil (by simp)
  | cons e entries ih =>
    obtain ⟨he, hname⟩ := h e List.mem_cons_self
    exact (ih fun x hx => h x (List.mem_cons_of_mem e hx)).insert he hname

theorem name_place (content : Option Content) (names : List Text) (root : Entry) :
    (place content names root).name = root.name := by
  unfold place
  split
  · rfl
  · split <;> rfl
  · rfl
  · rfl

/-- The entry with a name, or an empty folder. -/
theorem Proper.named (h : (Entry.folder here entries).Proper) (name : Text) :
    ((named? name entries).getD (.folder name [])).Proper ∧
      ((named? name entries).getD (.folder name [])).name = name := by
  cases hc : named? name entries with
  | none => exact ⟨.folder (by simp) .nil (by simp), rfl⟩
  | some c =>
    cases h with
    | folder _ _ hproper =>
      exact ⟨hproper c (List.mem_of_find?_eq_some hc), by simpa using List.find?_some hc⟩

/-- A tree stays proper if a file or a folder is put into it. -/
theorem Proper.place {root : Entry} {names : List Text} (h : root.Proper) (content : Option Content)
    (hnames : ∀ name ∈ names, IsName name) : (Entry.place content names root).Proper := by
  induction names generalizing root with
  | nil => exact h
  | cons name more ih =>
    obtain ⟨hname, hmore⟩ := List.forall_mem_cons.1 hnames
    cases root with
    | file => cases more <;> exact h
    | folder here entries =>
      obtain ⟨hinner, hinnerName⟩ := h.named name
      cases more with
      | nil =>
        cases content with
        | some content => exact h.insert (.file name content) hname
        | none => exact h.insert hinner (hinnerName.symm ▸ hname)
      | cons next more =>
        refine h.insert (ih hinner hmore) ?_
        rw [name_place, hinnerName]
        exact hname

end Building

section Split

variable {name : Text} {c : Entry} {front behind entries : List Entry}

theorem named?_split (hfront : ∀ e ∈ front, e.name ≠ c.name) :
    named? c.name (front ++ c :: behind) = some c := by
  have hnone : front.find? (fun e => e.name = c.name) = none := by
    simpa [List.find?_eq_none] using hfront
  simp [named?, hnone]

theorem exists_split_of_named? (hnodup : (entries.map Entry.name).Nodup)
    (h : named? name entries = some c) :
    ∃ front behind, entries = front ++ c :: behind ∧ c.name = name ∧
      (∀ e ∈ front, e.name ≠ c.name) ∧ ∀ e ∈ behind, e.name ≠ c.name := by
  obtain ⟨hname, front, behind, rfl, hfront⟩ := List.find?_eq_some_iff_append.1 h
  obtain rfl : c.name = name := by simpa using hname
  refine ⟨front, behind, rfl, rfl, by simpa using hfront, ?_⟩
  rw [List.map_append, List.map_cons] at hnodup
  intro e he heq
  have hnot := (List.nodup_cons.1 hnodup.of_append_right).1
  exact hnot (heq ▸ List.mem_map_of_mem he)

theorem Proper.split (h : (Entry.folder name (front ++ c :: behind)).Proper) :
    IsName c.name ∧ c.Proper ∧ (∀ e ∈ front, e.name ≠ c.name) ∧ ∀ e ∈ behind, e.name ≠ c.name := by
  cases h with
  | folder hnames hsorted hproper =>
    have hc : c ∈ front ++ c :: behind := by simp
    have hnodup := hsorted.nodup
    rw [List.map_append, List.map_cons] at hnodup
    refine ⟨hnames c hc, hproper c hc, ?_, ?_⟩
    · intro e he heq
      exact (List.disjoint_of_nodup_append hnodup) (List.mem_map_of_mem he) (by simp [heq])
    · intro e he heq
      exact (List.nodup_cons.1 hnodup.of_append_right).1 (heq ▸ List.mem_map_of_mem he)

end Split

/-! ## What names lead to -/

/-- The names lead from the first entry to the second one, and to no other. -/
inductive Leads : List Text → Entry → Entry → Prop
  | here (e : Entry) : Leads [] e e
  | step {place : List Text} {name : Text} {front behind : List Entry} {c e : Entry}
      (hfront : ∀ x ∈ front, x.name ≠ c.name) (hbehind : ∀ x ∈ behind, x.name ≠ c.name)
      (h : Leads place c e) : Leads (c.name :: place) (.folder name (front ++ c :: behind)) e

section Leads

variable {place more : List Text} {root e e' : Entry} {f : Entry → Entry}

theorem Leads.at?_eq (h : Leads place root e) : at? place root = some e := by
  induction h with
  | here e => rfl
  | step hfront _ _ ih => rw [at?, entries, named?_split hfront, Option.bind_some, ih]

theorem Proper.leads (hroot : root.Proper) (h : at? place root = some e) : Leads place root e := by
  induction place generalizing root with
  | nil =>
    obtain rfl : root = e := Option.some.inj h
    exact .here root
  | cons name place ih =>
    obtain ⟨c, hc, hrest⟩ := Option.bind_eq_some_iff.1 h
    cases hroot with
    | file => simp [named?, entries] at hc
    | folder _ hsorted hproper =>
      obtain ⟨front, behind, rfl, rfl, hfront, hbehind⟩ := exists_split_of_named? hsorted.nodup hc
      exact .step hfront hbehind (ih (hproper c (by simp)) hrest)

theorem Leads.proper (h : Leads place root e) (hroot : root.Proper) : e.Proper := by
  induction h with
  | here e => exact hroot
  | step _ _ _ ih =>
    cases hroot with
    | folder _ _ hproper => exact ih (hproper _ (by simp))

theorem Leads.trans (h : Leads place root e) (h' : Leads more e e') :
    Leads (place ++ more) root e' := by
  induction h with
  | here e => exact h'
  | step hfront hbehind _ ih => exact .step hfront hbehind (ih h')

theorem Leads.child {name : Text} {front behind : List Entry} {c : Entry} (hroot : root.Proper)
    (h : Leads place root (.folder name (front ++ c :: behind))) : Leads (place ++ [c.name]) root c := by
  obtain ⟨-, -, hfront, hbehind⟩ := (h.proper hroot).split
  exact h.trans (.step hfront hbehind (.here c))

/-! ## Changing one entry -/

theorem updateAt_append (f : Entry → Entry) (place more : List Text) (root : Entry) :
    updateAt f (place ++ more) root = updateAt (updateAt f more) place root := by
  induction place generalizing root with
  | nil => rfl
  | cons name place ih =>
    cases root with
    | file => rfl
    | folder here entries => simp only [List.cons_append, updateAt, ih]

theorem updateAt_split {name : Text} {front behind : List Entry} {c : Entry}
    (hfront : ∀ x ∈ front, x.name ≠ c.name) (hbehind : ∀ x ∈ behind, x.name ≠ c.name) :
    updateAt f (c.name :: place) (.folder name (front ++ c :: behind)) =
      .folder name (front ++ updateAt f place c :: behind) := by
  have hsame : ∀ l : List Entry, (∀ x ∈ l, x.name ≠ c.name) →
      l.map (fun x => if x.name = c.name then updateAt f place x else x) = l := by
    intro l hl
    conv_rhs => rw [← List.map_id l]
    exact List.map_congr_left fun x hx => if_neg (hl x hx)
  rw [updateAt, List.map_append, List.map_cons, hsame front hfront, hsame behind hbehind, if_pos rfl]

theorem Leads.name_updateAt (h : Leads place root e) (hname : (f e).name = e.name) :
    (updateAt f place root).name = root.name := by
  cases h with
  | here => exact hname
  | step => rfl

/-- The entry that changed stands where the old one stood. -/
theorem Leads.updateAt (h : Leads place root e) (hname : (f e).name = e.name) :
    Leads place (updateAt f place root) (f e) := by
  induction h with
  | here e => exact .here _
  | @step place name front behind c e hfront hbehind h ih =>
    have hc : (Entry.updateAt f place c).name = c.name := h.name_updateAt hname
    rw [updateAt_split hfront hbehind, ← hc]
    rw [← hc] at hfront hbehind
    exact .step hfront hbehind (ih hname)

/-- Only what is done to the entry there matters. -/
theorem Leads.updateAt_congr {g : Entry → Entry} (h : Leads place root e) (hfg : f e = g e) :
    Entry.updateAt f place root = Entry.updateAt g place root := by
  induction h with
  | here e => exact hfg
  | step hfront hbehind _ ih => rw [updateAt_split hfront hbehind, updateAt_split hfront hbehind, ih hfg]

theorem Leads.updateAt_eq_self (h : Leads place root e) (hf : f e = e) :
    Entry.updateAt f place root = root := by
  induction h with
  | here e => exact hf
  | step hfront hbehind _ ih => rw [updateAt_split hfront hbehind, ih hf]

theorem Leads.updateAt_updateAt {g : Entry → Entry} (h : Leads place root e)
    (hname : (f e).name = e.name) :
    Entry.updateAt g place (Entry.updateAt f place root) = Entry.updateAt (g ∘ f) place root := by
  induction h with
  | here e => rfl
  | @step place name front behind c e hfront hbehind h ih =>
    have hc : (Entry.updateAt f place c).name = c.name := h.name_updateAt hname
    rw [updateAt_split hfront hbehind, updateAt_split hfront hbehind, ← ih hname]
    rw [← hc] at hfront hbehind ⊢
    exact updateAt_split hfront hbehind

/-- To change an entry of a folder is to change the folder. -/
theorem Leads.updateAt_child {name : Text} {front behind : List Entry} {c c' : Entry}
    (hroot : root.Proper) (h : Leads place root (.folder name (front ++ c :: behind))) :
    Entry.updateAt (fun _ => c') (place ++ [c.name]) root =
      Entry.updateAt (fun _ => .folder name (front ++ c' :: behind)) place root := by
  obtain ⟨-, -, hfront, hbehind⟩ := (h.proper hroot).split
  rw [updateAt_append]
  exact h.updateAt_congr (updateAt_split hfront hbehind)

/-- A file elsewhere stays as it is. -/
theorem Leads.at?_updateAt {place' : List Text} {name name' : Text} {content content' : Content}
    (h : Leads place root (.file name content)) (hname : (f (.file name content)).name = name)
    (hne : place' ≠ place) (hfile : at? place' root = some (.file name' content')) :
    at? place' (Entry.updateAt f place root) = some (.file name' content') := by
  generalize hx : Entry.file name content = x at h
  induction h generalizing place' with
  | here x =>
    subst hx
    cases place' with
    | nil => exact absurd rfl hne
    | cons => simp [at?, entries, named?] at hfile
  | @step place here front behind c x hfront hbehind h ih =>
    subst hx
    rw [updateAt_split hfront hbehind]
    cases place' with
    | nil => simp [at?] at hfile
    | cons first place' =>
      have hc : (Entry.updateAt f place c).name = c.name := h.name_updateAt hname
      by_cases hfirst : first = c.name
      · subst hfirst
        rw [at?, entries, named?_split hfront] at hfile
        rw [← hc] at hfront
        rw [at?, entries, ← hc, named?_split hfront]
        exact ih (by simpa using hne) hfile rfl
      · have hsame : named? first (front ++ Entry.updateAt f place c :: behind) =
            named? first (front ++ c :: behind) := by
          simp [named?, List.find?_append, hc, Ne.symm hfirst]
        rw [at?, entries, hsame]
        exact hfile

end Leads

/-! ## Shapes -/

mutual

/-- The entry without what its files hold. -/
def shape : Entry → Entry
  | .file name _ => .file name (.raw [])
  | .folder name entries => .folder name (shapes entries)

/-- The entries without what their files hold. -/
def shapes : List Entry → List Entry
  | [] => []
  | e :: more => e.shape :: shapes more

end

section Shape

variable {root root' e : Entry} {place : List Text} {path : Text}

theorem shapes_eq_map (entries : List Entry) : shapes entries = entries.map shape := by
  induction entries with
  | nil => rfl
  | cons e entries ih => rw [shapes, ih, List.map_cons]

@[simp]
theorem shape_file (name : Text) (content : Content) :
    (Entry.file name content).shape = .file name (.raw []) := by
  rw [shape]

@[simp]
theorem shape_folder (name : Text) (entries : List Entry) :
    (Entry.folder name entries).shape = .folder name (entries.map shape) := by
  rw [shape, shapes_eq_map]

@[simp]
theorem name_shape (e : Entry) : e.shape.name = e.name := by
  cases e <;> simp [name]

@[simp]
theorem isFolder_shape (e : Entry) : e.shape.isFolder = e.isFolder := by
  cases e <;> simp [isFolder]

theorem entries_shape (e : Entry) : e.shape.entries = e.entries.map shape := by
  cases e <;> simp [entries]

theorem named?_shape (name : Text) (entries : List Entry) :
    named? name (entries.map shape) = (named? name entries).map shape := by
  have hcomp : (fun e : Entry => decide (e.name = name)) ∘ shape = fun e => decide (e.name = name) :=
    funext fun e => by rw [Function.comp_apply, name_shape]
  rw [named?, List.find?_map, hcomp, named?]

theorem at?_shape (place : List Text) (root : Entry) :
    at? place root.shape = (at? place root).map shape := by
  induction place generalizing root with
  | nil => rfl
  | cons name place ih =>
    rw [at?, at?, entries_shape, named?_shape]
    cases named? name root.entries with
    | none => rfl
    | some c => exact ih c

theorem sorted_shape {entries : List Entry} : Sorted (entries.map shape) ↔ Sorted entries := by
  simp [Sorted, List.pairwise_map]

theorem proper_shape : root.shape.Proper ↔ root.Proper := by
  induction root using induct with
  | file name content => simp [Proper.file]
  | folder name entries ih =>
    rw [shape_folder]
    constructor
    · intro h
      cases h with
      | folder hall hsorted hproper =>
        rw [List.forall_mem_map] at hall hproper
        refine .folder (by simpa using hall) (sorted_shape.1 hsorted) ?_
        exact fun e he => (ih e he).1 (hproper e he)
    · intro h
      cases h with
      | folder hall hsorted hproper =>
        refine .folder ?_ (sorted_shape.2 hsorted) ?_
        · rw [List.forall_mem_map]
          simpa using hall
        · rw [List.forall_mem_map]
          exact fun e he => (ih e he).2 (hproper e he)

theorem Proper.of_shape_eq (h : root.Proper) (heq : root'.shape = root.shape) : root'.Proper :=
  proper_shape.1 (heq ▸ proper_shape.2 h)

theorem follow_shape (here pieces : List Text) :
    follow root.shape here pieces = follow root here pieces := by
  induction pieces generalizing here with
  | nil => rfl
  | cons piece pieces ih =>
    rw [follow, follow, at?_shape]
    cases at? here root with
    | none => rfl
    | some e =>
      cases e with
      | file => simp
      | folder name entries => simp [named?_shape, ih]

/-- What a path leads to depends on folders and names alone. -/
theorem resolve_shape (root : Entry) (path : Text) : root.shape.resolve path = root.resolve path := by
  unfold resolve
  split
  · rfl
  · rfl
  · exact follow_shape [] _

theorem resolve_of_shape_eq (h : root'.shape = root.shape) (path : Text) :
    root'.resolve path = root.resolve path := by
  rw [← resolve_shape, h, resolve_shape]

theorem Leads.shape_updateAt {f : Entry → Entry} (h : Leads place root e)
    (hf : (f e).shape = e.shape) : (Entry.updateAt f place root).shape = root.shape := by
  induction h with
  | here e => exact hf
  | step hfront hbehind _ ih => simp [updateAt_split hfront hbehind, ih hf]

/-- An entry of the same shape can take the place of another one. -/
theorem Leads.exchange {e' : Entry} (hroot : root.Proper) (h : Leads place root e)
    (hshape : e'.shape = e.shape) :
    (Entry.updateAt (fun _ => e') place root).Proper ∧
      (Entry.updateAt (fun _ => e') place root).shape = root.shape ∧
      Leads place (Entry.updateAt (fun _ => e') place root) e' := by
  have hname : e'.name = e.name := by rw [← name_shape, hshape, name_shape]
  have hsame := h.shape_updateAt (f := fun _ => e') hshape
  exact ⟨hroot.of_shape_eq hsame, hsame, h.updateAt hname⟩

end Shape

/-! ## Paths -/

section Paths

variable {root : Entry} {path name here : Text} {place more : List Text} {entries : List Entry}

theorem pieces_ne_nil (path : Text) : Path.pieces path ≠ [] := by
  unfold Path.pieces
  split
  · simp
  · simp
  · split <;> simp

theorem pieces_cons {c : Char} (hc : c ≠ '/') (rest : Text) :
    Path.pieces (c :: rest) =
      (c :: (Path.pieces rest).headD []) :: (Path.pieces rest).tail := by
  rw [Path.pieces]
  · cases h : Path.pieces rest with
    | nil => rfl
    | cons piece more => rfl
  · simpa using hc

theorem pieces_append_slash (front rest : Text) :
    Path.pieces (front ++ '/' :: rest) = Path.pieces front ++ Path.pieces rest := by
  induction front with
  | nil => rfl
  | cons c front ih =>
    by_cases hc : c = '/'
    · subst hc
      rw [List.cons_append, Path.pieces, ih]
      rfl
    · rw [List.cons_append, pieces_cons hc, pieces_cons hc, ih]
      cases h : Path.pieces front with
      | nil => exact absurd h (pieces_ne_nil front)
      | cons piece more => rfl

theorem pieces_of_not_mem (h : '/' ∉ name) : Path.pieces name = [name] := by
  induction name with
  | nil => rfl
  | cons c name ih =>
    rw [List.mem_cons, not_or] at h
    rw [pieces_cons (Ne.symm h.1), ih h.2]
    rfl

/-- The pieces of the path of an entry: those of the folder, but for an empty one at their end, and the
name. -/
theorem pieces_join (hpath : path ≠ []) (hname : '/' ∉ name) :
    ∃ front, (Path.pieces path = front ∨ Path.pieces path = front ++ [[]]) ∧
      Path.pieces (Path.join path name) = front ++ [name] := by
  obtain rfl | ⟨body, c, rfl⟩ := List.eq_nil_or_concat' path
  · exact absurd rfl hpath
  · by_cases hc : c = '/'
    · subst hc
      refine ⟨Path.pieces body, Or.inr (pieces_append_slash body []), ?_⟩
      rw [← pieces_of_not_mem hname, ← pieces_append_slash]
      simp [Path.join]
    · refine ⟨Path.pieces (body ++ [c]), Or.inl rfl, ?_⟩
      rw [← pieces_of_not_mem hname, ← pieces_append_slash]
      simp [Path.join]

theorem follow_append (here pieces more : List Text) :
    follow root here (pieces ++ more) =
      (follow root here pieces).bind fun place => follow root place more := by
  induction pieces generalizing here with
  | nil => rfl
  | cons piece pieces ih =>
    rw [List.cons_append, follow, follow]
    cases at? here root with
    | none => rfl
    | some e =>
      cases e with
      | file => rfl
      | folder name entries =>
        simp only [ih]
        split_ifs <;> rfl

theorem resolve_eq_ok_iff :
    root.resolve path = .ok place ↔
      path ≠ [] ∧ path.head? ≠ some '/' ∧ follow root [] (Path.pieces path) = .ok place := by
  unfold resolve
  split
  · simp
  · simp
  · rename_i hnil hslash
    cases path with
    | nil => exact absurd rfl hnil
    | cons c rest =>
      have hc : c ≠ '/' := fun hc => hslash rest (by rw [hc])
      simp [hc]

theorem join_eq_append (hpath : path ≠ []) (name : Text) :
    ∃ rest, Path.join path name = path ++ rest := by
  unfold Path.join
  split
  · rename_i hnone
    exact absurd (List.getLast?_eq_none_iff.1 hnone) hpath
  · exact ⟨name, rfl⟩
  · exact ⟨'/' :: name, rfl⟩

theorem follow_empty (h : follow root place [[]] = .ok more) : more = place := by
  unfold follow at h
  split at h
  · simp at h
  · simp at h
  · simpa [follow, eq_comm] using h

/-- The path of an entry of a folder leads to the entry. -/
theorem resolve_join (h : root.resolve path = .ok place)
    (hfolder : at? place root = some (.folder here entries)) (hname : IsName name)
    (hin : (named? name entries).isSome = true) :
    root.resolve (Path.join path name) = .ok (place ++ [name]) := by
  obtain ⟨hpath, hhead, hfollow⟩ := resolve_eq_ok_iff.1 h
  obtain ⟨hne, hdot, hdots, hslash⟩ := hname
  obtain ⟨front, hfront, hjoin⟩ := pieces_join hpath hslash
  have hplace : follow root [] front = .ok place := by
    rcases hfront with hfront | hfront
    · rw [← hfront]
      exact hfollow
    · rw [hfront, follow_append] at hfollow
      cases hf : follow root [] front with
      | error e => simp [hf, Except.bind] at hfollow
      | ok place' =>
        rw [hf] at hfollow
        rw [follow_empty hfollow]
  have hstep : follow root place [name] = .ok (place ++ [name]) := by
    simp [follow, hfolder, hne, hdot, hdots, hin]
  obtain ⟨rest, hrest⟩ := join_eq_append hpath name
  refine resolve_eq_ok_iff.2 ⟨?_, ?_, ?_⟩
  · simp [hrest, hpath]
  · rw [hrest, List.head?_append_of_ne_nil _ hpath]
    exact hhead
  · rw [hjoin, follow_append, hplace]
    exact hstep

theorem Leads.resolve_child {front behind : List Entry} {c : Entry} (hroot : root.Proper)
    (hpath : root.resolve path = .ok place)
    (h : Leads place root (.folder here (front ++ c :: behind))) :
    root.resolve (Path.join path c.name) = .ok (place ++ [c.name]) := by
  obtain ⟨hname, -, hfront, -⟩ := (h.proper hroot).split
  exact resolve_join hpath h.at?_eq hname (by rw [named?_split hfront]; rfl)

end Paths

/-! ## What files hold -/

/-- What the file at a place holds. -/
def contentAt? (place : List Text) (root : Entry) : Option Content :=
  match at? place root with
  | some (.file _ content) => some content
  | _ => none

section Contents

variable {root : Entry} {place place' : List Text} {name : Text} {content content' : Content}

theorem contentAt?_eq_some_iff :
    contentAt? place root = some content ↔ ∃ name, at? place root = some (.file name content) := by
  unfold contentAt?
  split <;> simp_all

theorem Leads.contentAt?_eq (h : Leads place root (.file name content)) :
    contentAt? place root = some content :=
  contentAt?_eq_some_iff.2 ⟨name, h.at?_eq⟩

/-- What other files hold stays as it is. -/
theorem Leads.contentAt?_updateAt (h : Leads place root (.file name content)) (hne : place' ≠ place) :
    contentAt? place' (Entry.updateAt (fun _ => .file name content') place root) =
      contentAt? place' root := by
  have hkeep : ∀ (root : Entry) (content content' found : Content),
      Leads place root (.file name content) → contentAt? place' root = some found →
      contentAt? place' (Entry.updateAt (fun _ => .file name content') place root) = some found := by
    intro root content content' found h hfound
    obtain ⟨name', hat⟩ := contentAt?_eq_some_iff.1 hfound
    exact contentAt?_eq_some_iff.2 ⟨name', h.at?_updateAt rfl hne hat⟩
  -- the old content put back gives the old tree, so nothing comes up either
  have hback : Entry.updateAt (fun _ => .file name content) place
      (Entry.updateAt (fun _ => .file name content') place root) = root := by
    rw [h.updateAt_updateAt rfl]
    exact h.updateAt_eq_self rfl
  refine Option.ext fun found => ⟨fun hfound => ?_, hkeep root content content' found h⟩
  have hold := hkeep _ content' content found (h.updateAt rfl) hfound
  rwa [hback] at hold

end Contents

end Entry

end TagBox
