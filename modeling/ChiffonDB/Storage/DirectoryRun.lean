import ChiffonDB.Storage.PageDirectory

/-!
# Runs of page directories

Pushes to any number of directories in one file, among appends of other pages and with directories rebuilt from
their roots and lengths.

* `DirectoryFile` — the pages, and the directories under their names.
* `DirectoryFile.Holds` — each directory maps its own list, on pages of its own.
* `DirectoryFile.runs` — **a directory resolves a logical number to the page pushed to it under that number, and
  no push to another one changes that**.
-/

set_option autoImplicit false

namespace ChiffonDB

variable {ι : Type} [DecidableEq ι]

/-- A file with directories in it. -/
structure DirectoryFile (ι : Type) where
  file : PageMap
  dirs : ι → PageDirectory

inductive DirectoryCall (ι : Type) where
  | push (i : ι) (physical : UInt32)
  | append (page : PageData)
  | rebuild (i : ι)

namespace DirectoryFile

/-- A file before anything is pushed. -/
def new (file : PageMap) : DirectoryFile ι := ⟨file, fun _ => PageDirectory.new⟩

/-- A call; a panic ends the run, and a push that is refused leaves the directory as it is. -/
def call (s : DirectoryFile ι) : DirectoryCall ι → Option (DirectoryFile ι)
  | .push i physical =>
    match ((s.dirs i).push physical).run s.file with
    | (.ok (_, d), file) => some ⟨file, Function.update s.dirs i d⟩
    | (.err _, file) => some { s with file := file }
    | (.panic, _) => none
  | .append page =>
    match (Prog.append page).run s.file with
    | (.ok _, file) => some { s with file := file }
    | (.err _, file) => some { s with file := file }
    | (.panic, _) => none
  | .rebuild i => some { s with dirs := Function.update s.dirs i (.withRoot (s.dirs i).root (s.dirs i).len) }

def run (s : DirectoryFile ι) : List (DirectoryCall ι) → Option (DirectoryFile ι)
  | [] => some s
  | c :: calls =>
    match s.call c with
    | some s => run s calls
    | none => none

/-- What a directory answers to `resolve`. -/
def answer (s : DirectoryFile ι) (i : ι) (logical : Nat) : Outcome (Option UInt32) :=
  (((s.dirs i).resolve logical).run s.file).1

end DirectoryFile

/-- The pages that a call adds to the list of a directory: the sentinel is not a page. -/
def DirectoryCall.pushed (i : ι) : DirectoryCall ι → List UInt32
  | .push j physical => if j = i ∧ physical ≠ UNMAPPED then [physical] else []
  | _ => []

namespace DirectoryFile

/-! ## The lists behind the directories -/

/-- The directories map the lists `phys`, each on directory pages of its own. -/
structure Holds (s : DirectoryFile ι) (phys : ι → List UInt32) : Prop where
  len : ∀ i, (s.dirs i).len = (phys i).length
  chains : ∃ dirs : ι → List UInt32, (∀ i, DirAt s.file (s.dirs i).root (dirs i) (phys i)) ∧
    (∀ i, ∀ p ∈ dirs i, p < s.file.count) ∧ ∀ i j, i ≠ j → (dirs i).Disjoint (dirs j)

variable {s s' : DirectoryFile ι} {phys : ι → List UInt32}

omit [DecidableEq ι] in
theorem Holds.new (file : PageMap) : Holds (DirectoryFile.new file : DirectoryFile ι) fun _ => [] where
  len _ := rfl
  chains := ⟨fun _ => [], fun _ => DirAt.new file, by simp, by simp⟩

omit [DecidableEq ι] in
theorem Holds.run_resolve (h : Holds s phys) (i : ι) (logical : Nat) :
    ((s.dirs i).resolve logical).run s.file = (.ok (phys i)[logical]?, s.file) := by
  obtain ⟨dirs, hat, -, -⟩ := h.chains
  have hd : s.dirs i = ⟨(s.dirs i).root, (phys i).length⟩ := congrArg (PageDirectory.mk (s.dirs i).root) (h.len i)
  rw [hd]
  exact (hat i).run_resolve logical

/-- The refused push is the one of the sentinel. -/
theorem call_push_unmapped (s : DirectoryFile ι) (i : ι) : s.call (.push i UNMAPPED) = some s := by
  rw [call, PageDirectory.push, if_pos rfl]
  rfl

/-- A push maps one more page in its directory, or the file is full. -/
theorem Holds.push (h : Holds s phys) (i : ι) {physical : UInt32} (hne : physical ≠ UNMAPPED) :
    (UInt32.size ≤ s.file.count.toNat + 1 ∧ s.call (.push i physical) = none) ∨
      ∃ s', s.call (.push i physical) = some s' ∧ s'.file.count.toNat ≤ s.file.count.toNat + 1 ∧
        Holds s' (Function.update phys i (phys i ++ [physical])) := by
  obtain ⟨dirs, hat, hbelow, hdisj⟩ := h.chains
  have hd : s.dirs i = ⟨(s.dirs i).root, (phys i).length⟩ := congrArg (PageDirectory.mk (s.dirs i).root) (h.len i)
  rcases (hat i).run_push (hbelow i) hne with ⟨hfull, hp⟩ | ⟨m', root', dirs', hrun, hat', hpushed⟩
  · refine .inl ⟨hfull, ?_⟩
    rw [← hd] at hp
    rw [call]
    cases hr : ((s.dirs i).push physical).run s.file with
    | mk r m =>
      rw [hr] at hp
      cases hp
      rfl
  · rw [← hd] at hrun
    refine .inr ⟨⟨m', Function.update s.dirs i ⟨root', (phys i).length + 1⟩⟩, by rw [call, hrun], ?_, ?_, ?_⟩
    · rcases hpushed.grown with ⟨-, hc⟩ | ⟨-, hroom, hc⟩
      · exact hc ▸ Nat.le_succ _
      · rw [hc, UInt32.toNat_add]
        exact Nat.mod_le _ _
    · intro j
      by_cases hj : j = i
      · subst hj
        simp
      · simp [Function.update_of_ne hj, h.len j]
    · -- a directory page of the pushed directory is an old one or the appended one
      have hold : ∀ p ∈ dirs', p ∈ dirs i ∨ p = s.file.count := by
        intro p hp
        rcases hpushed.grown with ⟨he, -⟩ | ⟨he, -, -⟩
        · exact .inl (he ▸ hp)
        · rw [he] at hp
          simpa using hp
      have hcount : s.file.count ≤ m'.count ∧ ∀ p ∈ dirs', p < m'.count := by
        rcases hpushed.grown with ⟨he, hc⟩ | ⟨he, hroom, hc⟩
        · rw [he, hc]
          exact ⟨UInt32.le_refl _, hbelow i⟩
        · have hlt : s.file.count < m'.count := by
            rw [hc, UInt32.lt_iff_toNat_lt, UInt32.toNat_add]
            have h1 : (1 : UInt32).toNat = 1 := rfl
            rw [h1, Nat.mod_eq_of_lt hroom]
            exact Nat.lt_succ_self _
          refine ⟨UInt32.le_of_lt hlt, fun p hp => ?_⟩
          rcases hold p hp with hp | rfl
          · exact UInt32.lt_trans (hbelow i p hp) hlt
          · exact hlt
      have hother : ∀ j, j ≠ i → (dirs j).Disjoint dirs' := by
        intro j hj p hpj hp
        rcases hold p hp with hp | rfl
        · exact hdisj j i hj hpj hp
        · exact UInt32.lt_irrefl _ (hbelow j _ hpj)
      refine ⟨Function.update dirs i dirs', fun j => ?_, fun j p hp => ?_, fun j k hjk => ?_⟩
      · by_cases hj : j = i
        · subst hj
          simpa using hat'
        · simp only [Function.update_of_ne hj]
          exact (hat j).congr fun p hp => hpushed.pages p fun hp' => hother j hj hp hp'
      · by_cases hj : j = i
        · subst hj
          rw [Function.update_self] at hp
          exact hcount.2 p hp
        · rw [Function.update_of_ne hj] at hp
          exact UInt32.lt_of_lt_of_le (hbelow j p hp) hcount.1
      · by_cases hj : j = i
        · subst hj
          rw [Function.update_self, Function.update_of_ne (Ne.symm hjk)]
          exact fun p hp hpk => hother k (Ne.symm hjk) hpk hp
        · rw [Function.update_of_ne hj]
          by_cases hk : k = i
          · subst hk
            rw [Function.update_self]
            exact hother j hj
          · rw [Function.update_of_ne hk]
            exact hdisj j k hjk

omit [DecidableEq ι] in
/-- Nothing that the directories hold depends on the pages behind the last one of the file. -/
theorem Holds.append (h : Holds s phys) (page : PageData) (hroom : s.file.count.toNat + 1 < UInt32.size) :
    Holds ⟨{ s.file.set s.file.count page with count := s.file.count + 1 }, s.dirs⟩ phys where
  len := h.len
  chains := by
    obtain ⟨dirs, hat, hbelow, hdisj⟩ := h.chains
    refine ⟨dirs, fun i => (hat i).congr fun p hp => ?_, fun i p hp => ?_, hdisj⟩
    · exact s.file.set_pages_of_ne (UInt32.ne_of_lt (hbelow i p hp)) page
    · have hlt := hbelow i p hp
      rw [UInt32.lt_iff_toNat_lt] at hlt ⊢
      have h1 : (1 : UInt32).toNat = 1 := rfl
      show p.toNat < (s.file.count + 1).toNat
      rw [UInt32.toNat_add, h1, Nat.mod_eq_of_lt hroom]
      omega

/-- A call adds what it pushes to the list of its directory, or the file is full. -/
theorem Holds.call (h : Holds s phys) (c : DirectoryCall ι) :
    (UInt32.size ≤ s.file.count.toNat + 1 ∧ s.call c = none) ∨
      ∃ s', s.call c = some s' ∧ s'.file.count.toNat ≤ s.file.count.toNat + 1 ∧
        Holds s' fun i => phys i ++ c.pushed i := by
  cases c with
  | push i physical =>
    by_cases hne : physical = UNMAPPED
    · subst hne
      refine .inr ⟨s, call_push_unmapped s i, Nat.le_succ _, ?_⟩
      simpa [DirectoryCall.pushed] using h
    · have hlists : (fun j => phys j ++ DirectoryCall.pushed j (.push i physical)) =
          Function.update phys i (phys i ++ [physical]) := by
        funext j
        by_cases hj : j = i
        · subst hj
          simp [DirectoryCall.pushed, hne]
        · simp [DirectoryCall.pushed, Function.update_of_ne hj, Ne.symm hj]
      rw [hlists]
      exact h.push i hne
  | append page =>
    by_cases hroom : s.file.count.toNat + 1 < UInt32.size
    · refine .inr ⟨_, by rw [DirectoryFile.call, Prog.run_append hroom], ?_, ?_⟩
      · show (s.file.count + 1).toNat ≤ _
        rw [UInt32.toNat_add]
        exact Nat.mod_le _ _
      · simpa [DirectoryCall.pushed] using h.append page hroom
    · refine .inl ⟨Nat.le_of_not_lt hroom, ?_⟩
      have hnone : s.file.appendPage page = none := if_neg hroom
      rw [DirectoryFile.call, Prog.append, Prog.run, hnone]
  | rebuild i =>
    have hsame : Function.update s.dirs i (.withRoot (s.dirs i).root (s.dirs i).len) = s.dirs :=
      Function.update_eq_self i s.dirs
    refine .inr ⟨s, by rw [DirectoryFile.call, hsame], Nat.le_succ _, ?_⟩
    simpa [DirectoryCall.pushed] using h

/-! ## A run -/

theorem Holds.run (h : Holds s phys) (calls : List (DirectoryCall ι)) :
    (UInt32.size ≤ s.file.count.toNat + calls.length ∧ s.run calls = none) ∨
      ∃ s', s.run calls = some s' ∧ Holds s' fun i => phys i ++ calls.flatMap (DirectoryCall.pushed i) := by
  induction calls generalizing s phys with
  | nil => exact .inr ⟨s, rfl, by simpa using h⟩
  | cons c calls ih =>
    rcases h.call c with ⟨hfull, hc⟩ | ⟨s', hc, hcount, h'⟩
    · refine .inl ⟨?_, by rw [DirectoryFile.run, hc]⟩
      rw [List.length_cons]
      omega
    · rw [DirectoryFile.run, hc]
      rcases ih h' with ⟨hfull, hr⟩ | ⟨s'', hr, h''⟩
      · refine .inl ⟨?_, hr⟩
        rw [List.length_cons]
        omega
      · refine .inr ⟨s'', hr, ?_⟩
        simpa [List.append_assoc] using h''

/-- **After any pushes, appends and rebuilds, each directory has the length of the list of the pages pushed to it and
    resolves every logical number to the page of that number on the list; a push to another directory changes
    no answer.  Only a file of 2^32 pages stops a run.** -/
theorem runs (file : PageMap) (calls : List (DirectoryCall ι)) :
    (UInt32.size ≤ file.count.toNat + calls.length ∧ (new file).run calls = none) ∨
      ∃ s, (new file).run calls = some s ∧
        (∀ i, (s.dirs i).len = (calls.flatMap (DirectoryCall.pushed i)).length) ∧
        (∀ i logical, s.answer i logical = .ok (calls.flatMap (DirectoryCall.pushed i))[logical]?) ∧
        ∀ i physical s', s.call (.push i physical) = some s' → ∀ j, j ≠ i → ∀ logical,
          s'.answer j logical = s.answer j logical := by
  rcases (Holds.new file).run calls with hfull | ⟨s, hr, h⟩
  · exact .inl hfull
  · refine .inr ⟨s, hr, h.len, fun i logical => congrArg Prod.fst (h.run_resolve i logical), ?_⟩
    intro i physical s' hc j hj logical
    rcases h.call (.push i physical) with ⟨-, hnone⟩ | ⟨s'', hc', -, h'⟩
    · rw [hnone] at hc
      cases hc
    · rw [hc'] at hc
      cases hc
      unfold answer
      rw [h.run_resolve, h'.run_resolve]
      simp [DirectoryCall.pushed, Ne.symm hj]

end DirectoryFile

end ChiffonDB
