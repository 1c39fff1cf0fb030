import EntityGraph.Proofs.Table
import Mathlib.Tactic.Common
/-!
# Tables joined key by key

What stands under a key of the joined table depends on what stands under it on both sides and on
nothing else: an entry of one side alone stays as it is, and two entries under one key are joined.
New keys follow the present ones in their order, so the joined table is determined, and joining
tables is associative wherever joining their entries is.
-/
namespace EntityGraph.Table

variable {α : Type} {join : α → α → α → Prop} {present incoming result : Table α} {key : String}

/-- What one side has alone stays, and what both have is joined. -/
def JoinsAt (join : α → α → α → Prop) : (present incoming result : Option α) → Prop
  | none, b, c => c = b
  | some a, none, c => c = some a
  | some a, some b, c => ∃ d, join a b d ∧ c = some d

/-- The tables are joined under every key. -/
def Joins (join : α → α → α → Prop) (present incoming result : Table α) : Prop :=
  ∀ key, JoinsAt join (present.find? key) (incoming.find? key) (result.find? key)

/-- The tables are joined under every key, and the new keys come behind the present ones. -/
structure Joined (join : α → α → α → Prop) (present incoming result : Table α) : Prop where
  joins : Joins join present incoming result
  keys : result.keys = present.keys ++ incoming.keys.filter fun key => key ∉ present.keys

/-! ### Tables by their keys -/

lemma keys_put {entry : α} : (present.put key entry).keys =
    if key ∈ present.keys then present.keys else present.keys ++ [key] := by
  induction present with
  | nil => rfl
  | cons pair rest ih =>
    obtain ⟨name, first⟩ := pair
    by_cases hname : name = key
    · simp [put, hname]
    · rw [put, if_neg hname, keys_cons, ih]
      by_cases hmem : key ∈ keys rest <;> simp [hmem, Ne.symm hname]

/-- A table is determined by the order of its keys and by what look-ups find. -/
lemma eq_of_find?_eq {table other : Table α} (hn : table.keys.Nodup)
    (hkeys : other.keys = table.keys) (h : ∀ key, other.find? key = table.find? key) :
    other = table := by
  induction table generalizing other with
  | nil => exact List.map_eq_nil_iff.mp hkeys
  | cons pair rest ih =>
    cases other with
    | nil => cases hkeys
    | cons pair' rest' =>
      obtain ⟨name, entry⟩ := pair
      obtain ⟨name', entry'⟩ := pair'
      rw [keys_cons, keys_cons] at hkeys
      obtain ⟨rfl, hrest⟩ := List.cons.inj hkeys
      obtain ⟨hnew, hn⟩ := List.nodup_cons.mp hn
      have hentry : entry' = entry := by simpa [find?] using h name'
      have hothers : rest' = rest := by
        refine ih hn hrest fun key => ?_
        by_cases heq : name' = key
        · subst heq
          rw [find?_eq_none hnew, find?_eq_none (hrest ▸ hnew)]
        · simpa [find?, heq] using h key
      rw [hentry, hothers]

/-! ### One entry after the other -/

lemma joinsAt_none (a : Option α) : JoinsAt join a none a := by
  cases a <;> rfl

/-- One side has nothing, or both have something. -/
lemma JoinsAt.inversion {a b c : Option α} (h : JoinsAt join a b c) :
    (a = none ∧ c = b) ∨ (b = none ∧ c = a) ∨
      ∃ x y z, a = some x ∧ b = some y ∧ c = some z ∧ join x y z := by
  cases a with
  | none => exact .inl ⟨rfl, h⟩
  | some x =>
    cases b with
    | none => exact .inr (.inl ⟨rfl, h⟩)
    | some y =>
      obtain ⟨z, hz, hc⟩ := h
      exact .inr (.inr ⟨x, y, z, rfl, rfl, hc, hz⟩)

lemma joins_nil (present : Table α) : Joins join present [] present :=
  fun key => joinsAt_none (present.find? key)

/-- The first incoming entry is put or joined, and then the others. -/
lemma joins_cons_iff {name : String} {entry : α} {rest : Table α} (hnew : name ∉ keys rest) :
    Joins join present ((name, entry) :: rest) result ↔
      ∃ after, JoinsAt join (present.find? name) (some entry) (some after) ∧
        Joins join (present.put name after) rest result := by
  constructor
  · intro h
    have hname := h name
    rw [find?, if_pos rfl] at hname
    obtain ⟨after, hafter⟩ : ∃ after, result.find? name = some after := by
      obtain ⟨-, hafter⟩ | ⟨hnone, -⟩ | ⟨-, -, after, -, -, hafter, -⟩ := hname.inversion
      · exact ⟨entry, hafter⟩
      · cases hnone
      · exact ⟨after, hafter⟩
    refine ⟨after, hafter ▸ hname, fun key => ?_⟩
    by_cases heq : name = key
    · subst heq
      rw [find?_put_self, find?_eq_none hnew, hafter]
      rfl
    · have hkey := h key
      rw [find?, if_neg heq] at hkey
      rwa [find?_put_of_ne (Ne.symm heq)]
  · rintro ⟨after, hfirst, h⟩ key
    have hkey := h key
    by_cases heq : name = key
    · subst heq
      rw [find?_put_self, find?_eq_none hnew] at hkey
      rw [find?, if_pos rfl, show result.find? name = some after from hkey]
      exact hfirst
    · rw [find?_put_of_ne (Ne.symm heq)] at hkey
      rwa [find?, if_neg heq]

lemma joined_nil_iff (hn : present.keys.Nodup) : Joined join present [] result ↔
    result = present := by
  constructor
  · rintro ⟨hjoins, hkeys⟩
    refine eq_of_find?_eq hn (hkeys.trans (List.append_nil _)) fun key => ?_
    have hkey := hjoins key
    cases hfind : present.find? key <;> rwa [hfind] at hkey
  · rintro rfl
    exact ⟨joins_nil _, (List.append_nil _).symm⟩

lemma joined_cons_iff {name : String} {entry : α} {rest : Table α} (hnew : name ∉ keys rest) :
    Joined join present ((name, entry) :: rest) result ↔
      ∃ after, JoinsAt join (present.find? name) (some entry) (some after) ∧
        Joined join (present.put name after) rest result := by
  have hkeys (after : α) : (present.put name after).keys ++
      (keys rest).filter (fun key => key ∉ (present.put name after).keys) =
      present.keys ++ (keys ((name, entry) :: rest)).filter fun key => key ∉ present.keys := by
    rw [keys_put, keys_cons]
    by_cases hmem : name ∈ present.keys
    · simp [hmem]
    · have hrest : ∀ key ∈ keys rest, key ≠ name := by
        rintro key hkey rfl
        exact hnew hkey
      simp only [hmem, if_false, not_false_eq_true, decide_true, List.filter_cons_of_pos,
        List.append_assoc, List.singleton_append, List.mem_append, List.mem_singleton]
      congr 2
      refine List.filter_congr fun key hkey => ?_
      simp [hrest key hkey]
  constructor
  · rintro ⟨hjoins, hall⟩
    obtain ⟨after, hafter, hjoins⟩ := (joins_cons_iff hnew).mp hjoins
    exact ⟨after, hafter, hjoins, hall.trans (hkeys after).symm⟩
  · rintro ⟨after, hafter, hjoins, hall⟩
    exact ⟨(joins_cons_iff hnew).mpr ⟨after, hafter, hjoins⟩, hall.trans (hkeys after)⟩

/-! ### Laws -/

lemma Joined.nodup (h : Joined join present incoming result) (hp : present.keys.Nodup)
    (hi : incoming.keys.Nodup) : result.keys.Nodup := by
  rw [h.keys, List.nodup_append]
  refine ⟨hp, hi.filter _, ?_⟩
  rintro key hkey _ hother rfl
  simp [hkey] at hother

lemma Joined.mem_keys_iff (h : Joined join present incoming result) :
    key ∈ result.keys ↔ key ∈ present.keys ∨ key ∈ incoming.keys := by
  rw [h.keys, List.mem_append, List.mem_filter, decide_eq_true_eq]
  tauto

/-- What holds of the entries of both sides and of what is joined of them holds of all entries. -/
lemma Joined.forall_find? {P : String → α → Prop} (h : Joined join present incoming result)
    (hp : ∀ key a, present.find? key = some a → P key a)
    (hi : ∀ key b, incoming.find? key = some b → P key b)
    (hjoin : ∀ key a b c, present.find? key = some a → incoming.find? key = some b →
      join a b c → P key c) :
    ∀ key c, result.find? key = some c → P key c := by
  intro key c hc
  obtain ⟨-, heq⟩ | ⟨-, heq⟩ | ⟨x, y, z, hx, hy, hz, hjoined⟩ := (h.joins key).inversion
  · exact hi key c (heq.symm.trans hc)
  · exact hp key c (heq.symm.trans hc)
  · obtain rfl : z = c := Option.some_inj.mp (hz.symm.trans hc)
    exact hjoin key x y z hx hy hjoined

/-- Tables can be joined where their entries can. -/
lemma exists_joined (hn : incoming.keys.Nodup)
    (h : ∀ key, ∃ c, JoinsAt join (present.find? key) (incoming.find? key) c) :
    ∃ result, Joined join present incoming result := by
  induction incoming generalizing present with
  | nil => exact ⟨present, joins_nil _, (List.append_nil _).symm⟩
  | cons pair rest ih =>
    obtain ⟨name, entry⟩ := pair
    obtain ⟨hnew, hn⟩ := List.nodup_cons.mp hn
    obtain ⟨after, hafter⟩ : ∃ after,
        JoinsAt join (present.find? name) (some entry) (some after) := by
      obtain ⟨c, hc⟩ := h name
      rw [find?, if_pos rfl] at hc
      cases hfind : present.find? name with
      | none => exact ⟨entry, rfl⟩
      | some a =>
        rw [hfind] at hc
        obtain ⟨after, hafter, -⟩ := hc
        exact ⟨after, after, hafter, rfl⟩
    have hrest : ∃ result, Joined join (present.put name after) rest result := by
      refine ih hn fun key => ?_
      by_cases heq : name = key
      · subst heq
        rw [find?_put_self, find?_eq_none hnew]
        exact ⟨some after, rfl⟩
      · have hkey := h key
        rw [find?, if_neg heq] at hkey
        rwa [find?_put_of_ne (Ne.symm heq)]
    obtain ⟨result, hresult⟩ := hrest
    exact ⟨result, (joined_cons_iff hnew).mpr ⟨after, hafter, hresult⟩⟩

/-- Joining a table with itself changes nothing if that is so for its entries. -/
lemma joined_self (h : ∀ key a, present.find? key = some a → join a a a) :
    Joined join present present present := by
  refine ⟨fun key => ?_, ?_⟩
  · cases hfind : present.find? key with
    | none => rfl
    | some a => exact ⟨a, h key a hfind, rfl⟩
  · rw [List.filter_eq_nil_iff.mpr (by simp), List.append_nil]

lemma JoinsAt.unique (hunique : ∀ a b c d, join a b c → join a b d → c = d) {a b c d : Option α}
    (hc : JoinsAt join a b c) (hd : JoinsAt join a b d) : c = d := by
  cases a with
  | none => exact hc.trans hd.symm
  | some a =>
    cases b with
    | none => exact hc.trans hd.symm
    | some b =>
      obtain ⟨c, hc, rfl⟩ := hc
      obtain ⟨d, hd, rfl⟩ := hd
      rw [hunique a b c d hc hd]

/-- What is read off joined entries is merged if that is so for every two that are joined. -/
lemma JoinsAt.bind_eq_merge {β : Type} {read : α → Option β} {larger : β → β → β}
    {a b c : Option α} (h : JoinsAt join a b c)
    (hread : ∀ x y z, join x y z → read z = Option.merge larger (read x) (read y)) :
    c.bind read = Option.merge larger (a.bind read) (b.bind read) := by
  obtain ⟨rfl, rfl⟩ | ⟨rfl, rfl⟩ | ⟨x, y, z, rfl, rfl, rfl, hz⟩ := h.inversion
  · simp
  · simp
  · exact hread x y z hz

/-- Entries may be regrouped if that is so wherever all three sides have one. -/
lemma joinsAt_assoc {a b c r : Option α}
    (h : ∀ x ∈ a, ∀ y ∈ b, ∀ z ∈ c, ∀ r,
      (∃ xy, join x y xy ∧ join xy z r) ↔ ∃ yz, join y z yz ∧ join x yz r) :
    (∃ ab, JoinsAt join a b ab ∧ JoinsAt join ab c r) ↔
      ∃ bc, JoinsAt join b c bc ∧ JoinsAt join a bc r := by
  cases a with
  | none => simp [JoinsAt]
  | some x =>
    cases b with
    | none => cases c <;> simp [JoinsAt]
    | some y =>
      cases c with
      | none => simp [JoinsAt]
      | some z =>
        have hxyz := h x rfl y rfl z rfl
        constructor
        · rintro ⟨_, ⟨xy, hxy, rfl⟩, r, hr, rfl⟩
          obtain ⟨yz, hyz, hr⟩ := (hxyz r).mp ⟨xy, hxy, hr⟩
          exact ⟨some yz, ⟨yz, hyz, rfl⟩, r, hr, rfl⟩
        · rintro ⟨_, ⟨yz, hyz, rfl⟩, r, hr, rfl⟩
          obtain ⟨xy, hxy, hr⟩ := (hxyz r).mpr ⟨yz, hyz, hr⟩
          exact ⟨some xy, ⟨xy, hxy, rfl⟩, r, hr, rfl⟩

/-- The keys come in the same order however three tables are grouped. -/
lemma keys_regrouped (as bs cs : List String) :
    (as ++ bs.filter fun key => key ∉ as) ++
        cs.filter (fun key => key ∉ as ++ bs.filter fun key => key ∉ as) =
      as ++ (bs ++ cs.filter fun key => key ∉ bs).filter fun key => key ∉ as := by
  rw [List.append_assoc, List.filter_append, List.filter_filter]
  congr 2
  refine List.filter_congr fun key _ => ?_
  by_cases has : key ∈ as <;> simp [has]

/-- Joining tables is associative wherever joining their entries is. -/
theorem joined_assoc (hunique : ∀ a b c d, join a b c → join a b d → c = d) {a b c r : Table α}
    (hb : b.keys.Nodup) (hc : c.keys.Nodup)
    (h : ∀ key, ∀ x ∈ a.find? key, ∀ y ∈ b.find? key, ∀ z ∈ c.find? key, ∀ r,
      (∃ xy, join x y xy ∧ join xy z r) ↔ ∃ yz, join y z yz ∧ join x yz r) :
    (∃ ab, Joined join a b ab ∧ Joined join ab c r) ↔
      ∃ bc, Joined join b c bc ∧ Joined join a bc r := by
  constructor
  · rintro ⟨ab, hab, hr⟩
    have hat (key : String) := (joinsAt_assoc (h key)).mp ⟨_, hab.joins key, hr.joins key⟩
    obtain ⟨bc, hbc⟩ := exists_joined hc fun key => (hat key).imp fun _ hkey => hkey.1
    refine ⟨bc, hbc, fun key => ?_, ?_⟩
    · obtain ⟨entry, hentry, hresult⟩ := hat key
      rwa [JoinsAt.unique hunique (hbc.joins key) hentry]
    · rw [hr.keys, hab.keys, hbc.keys, keys_regrouped]
  · rintro ⟨bc, hbc, hr⟩
    have hat (key : String) := (joinsAt_assoc (h key)).mpr ⟨_, hbc.joins key, hr.joins key⟩
    obtain ⟨ab, hab⟩ := exists_joined hb fun key => (hat key).imp fun _ hkey => hkey.1
    refine ⟨ab, hab, fun key => ?_, ?_⟩
    · obtain ⟨entry, hentry, hresult⟩ := hat key
      rwa [JoinsAt.unique hunique (hab.joins key) hentry]
    · rw [hr.keys, hab.keys, hbc.keys, keys_regrouped]

/-- If entries of one side are as they should be, all entries afterwards are exactly if no two
entries are at odds. -/
lemma Joins.forall_find?_iff {P : String → α → Prop} {odds : α → α → Prop}
    (h : Joins join present incoming result)
    (hpresent : ∀ key a, present.find? key = some a → P key a)
    (hincoming : ∀ key b, incoming.find? key = some b → P key b)
    (hjoin : ∀ key a b c, present.find? key = some a → incoming.find? key = some b → join a b c →
      (P key c ↔ ¬ odds a b)) :
    (∀ key c, result.find? key = some c → P key c) ↔
      ¬ ∃ key a b, present.find? key = some a ∧ incoming.find? key = some b ∧ odds a b := by
  constructor
  · rintro hall ⟨key, a, b, ha, hb, hodds⟩
    have hkey := h key
    rw [ha, hb] at hkey
    obtain ⟨c, hc, hresult⟩ := hkey
    exact (hjoin key a b c ha hb hc).mp (hall key c hresult) hodds
  · intro hnone key c hc
    obtain ⟨-, heq⟩ | ⟨-, heq⟩ | ⟨a, b, d, ha, hb, hd, hjoined⟩ := (h key).inversion
    · exact hincoming key c (heq.symm.trans hc)
    · exact hpresent key c (heq.symm.trans hc)
    · obtain rfl : d = c := Option.some_inj.mp (hd.symm.trans hc)
      exact (hjoin key a b d ha hb hjoined).mpr fun hodds => hnone ⟨key, a, b, ha, hb, hodds⟩

end EntityGraph.Table
