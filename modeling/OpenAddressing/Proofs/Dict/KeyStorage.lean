import OpenAddressing.Proofs.Dict.Bare
import OpenAddressing.Proofs.Dict.Ledger
import OpenAddressing.Text.Show

/-!
# How keys are stored makes no difference

Two runs of the same operations may store each key in another way: one dictionary owns its keys and
the other does not, a key is given owned to one and borrowed to the other, or one run goes through a
shared dictionary, which copies every key. `Twins` relates the dictionaries that such runs come to.

Twins are the same when read bare (`Twins.alike`), and reading a dictionary bare commutes with every
call (`perform_bare`), also with those through a shared dictionary (`Access.bare_perform`). So two
such runs show the same at every point: answers, refusals, the values that depart and their
receivers, and whatever can be read off the dictionary in between (`sights_eq`). Only the owner of a
key that a draining walk hands out is left out of what they show.
-/

namespace OpenAddressing

universe u v w

variable {ρ : Type v} {σ : Type w} {α : Type u}

/-- The calls differ at most in how keys are to be stored. -/
def Call.Alike (call call' : Call ρ σ α) : Prop := call.bare = call'.bare

namespace Dict

/-! ## What can be seen -/

/-- What can be read off a dictionary, apart from who owns its keys. -/
structure Look (ρ : Type v) (α : Type u) where
  /-- The bytes of the keys, and the values, in the order of a walk. -/
  entries : List (Bytes × α)
  /-- The number of entries. -/
  size : ℕ
  /-- Whether there is no entry. -/
  isEmpty : Bool
  /-- The number of slots. -/
  capacity : ℕ
  /-- Whether a rehash is under way. -/
  resizing : Bool
  /-- How many entries have each displacement. -/
  histogram : Array ℕ
  /-- The statistics. -/
  stats : Stats
  /-- The hash used for a key. -/
  hashKey : Bytes → UInt32
  /-- The settings, as far as they concern values. -/
  settings : Settings
  /-- The dictionary as it is shown. -/
  outline : (α → String) → Text.Outline
  /-- The values that depart if the dictionary ends. -/
  disposed : List (Departure ρ α)

/-- What can be read off a dictionary. -/
def look (d : Dict ρ α) : Look ρ α where
  entries := d.entries.map fun entry => (entry.key.bytes, entry.value)
  size := d.size
  isEmpty := d.isEmpty
  capacity := d.capacity
  resizing := d.table.resizing
  histogram := d.histogram
  stats := d.stats
  hashKey := d.hashKey
  settings := d.config.settings.bare
  outline := d.outline
  disposed := d.dispose

/-- What a call shows: its answer, with the keys read bare, the values that departed, and what can
then be read off the dictionary. -/
structure Sight (ρ : Type v) (σ : Type w) (α : Type u) where
  /-- The answer, or why there is none. -/
  answer : Except Error (Answer σ α)
  /-- The values that left, in order. -/
  departed : List (Departure ρ α)
  /-- What can be read off the dictionary afterwards. -/
  look : Look ρ α

end Dict

/-- Performs a call on a shared dictionary: by its own operation, or on the dictionary within if it
has none for the call. -/
def SharedDict.perform (d : SharedDict ρ α) : Call ρ σ α → Dict.Effect ρ α (Answer σ α)
  | .request (.insert available key value) => (d.insert available key value).map .value
  | .request (.get key) => ⟨.ok (.value (d.get? key)), d.inner, []⟩
  | .request (.contains key) => ⟨.ok (.flag (d.contains key)), d.inner, []⟩
  | .request (.delete available key) => (d.delete available key).map .value
  | .request (.remove available key) =>
    (d.remove available key).map fun value => .value (some value)
  | .request .clear => ⟨.ok .done, d.clear.1, d.clear.2⟩
  | .setRelease release => ⟨.ok .done, d.setRelease release, []⟩
  | .setHash hash => ⟨(d.setHash hash).answer.map fun _ => .done, (d.setHash hash).state, []⟩
  | .setSize size => ⟨(d.setSize size).answer.map fun _ => .done, (d.setSize size).state, []⟩
  | .setEqual equal =>
    ⟨(d.setEqual equal).answer.map fun _ => .done, (d.setEqual equal).state, []⟩
  | call => d.inner.perform call

/-- What can be read off a shared dictionary: by its own operations, or off the one within. -/
def SharedDict.look (d : SharedDict ρ α) : Dict.Look ρ α :=
  { d.inner.look with size := d.size, isEmpty := d.isEmpty, capacity := d.capacity }

/-- How a dictionary is called. -/
inductive Access where
  /-- By its own operations. -/
  | direct
  /-- By those of a shared dictionary around it. -/
  | shared

namespace Access

/-- Performs a call. -/
def perform : Access → Dict ρ α → Call ρ σ α → Dict.Effect ρ α (Answer σ α)
  | .direct, d, call => d.perform call
  | .shared, d, call => (SharedDict.mk d).perform call

/-- What can be read off the dictionary. -/
def look : Access → Dict ρ α → Dict.Look ρ α
  | .direct, d => d.look
  | .shared, d => (SharedDict.mk d).look

/-- What calls one after another show. -/
def sights (access : Access) (d : Dict ρ α) : List (Call ρ σ α) → List (Dict.Sight ρ σ α)
  | [] => []
  | call :: rest =>
    ⟨(access.perform d call).answer.map Answer.bare, (access.perform d call).departed,
      access.look (access.perform d call).dict⟩ :: access.sights (access.perform d call).dict rest

/-- A shared dictionary shows what the one within shows. -/
@[simp] theorem look_eq (access : Access) (d : Dict ρ α) : access.look d = d.look := by
  cases access <;> rfl

/-- A call to a shared dictionary is one to the dictionary within, but for how a key is stored. -/
theorem bare_perform (access : Access) (d : Dict ρ α) (call : Call ρ σ α) :
    (access.perform d call).bare = (d.perform call).bare := by
  cases access with
  | direct => rfl
  | shared =>
    cases call with
    | request request =>
      cases request with
      | insert available key value =>
        -- The copy of the key and the key as the settings store it are the same key, read bare.
        have hcopy := d.insertKey_bare available (.owned key) value
        have hstored := d.insert_bare available key value
        show ((d.insertKey available (.owned key) value).map Answer.value).bare
          = ((d.insert available key value).map Answer.value).bare
        rw [Dict.Effect.bare_map fun _ => rfl, Dict.Effect.bare_map fun _ => rfl, ← hcopy,
          ← hstored]
        rfl
      | _ => rfl
    | _ => rfl

end Access

namespace Dict

/-- The settings of a bare configuration say nothing about keys any more. -/
theorem bare_bare_settings (s : Settings) : s.bare.bare = s.bare := by
  unfold Settings.bare
  cases s.ownership <;> rfl

/-- Reading a dictionary bare changes nothing that it shows. -/
theorem look_bare (d : Dict ρ α) : d.bare.look = d.look := by
  have hitems : d.bare.table.items = d.table.items.map Entry.bare := Table.items_map ..
  have hentries : d.bare.entries.map (fun entry => (entry.key.bytes, entry.value))
      = d.entries.map fun entry => (entry.key.bytes, entry.value) := by
    rw [entries, entries, hitems, List.map_map]
    rfl
  have houtline : d.bare.outline = d.outline := by
    funext showValue
    rw [outline, outline, entries, entries, hitems, List.map_map]
    rfl
  have hdispose : d.bare.dispose = d.dispose := by
    rw [dispose, dispose, values_bare, bare, Config.givenUp_bare]
  have hcapacity : d.bare.capacity = d.capacity := Table.capacity_map ..
  have hhistogram : d.bare.histogram = d.histogram := Table.histogram_map ..
  have hstats : d.bare.stats = d.stats := Table.stats_map ..
  unfold look
  rw [hentries, houtline, hdispose, hcapacity, hhistogram, hstats]
  congr 1
  exact bare_bare_settings d.config.settings

/-! ## Runs -/

/-- The dictionaries are the same but for who owns their keys. -/
def Alike (d d' : Dict ρ α) : Prop := d.bare = d'.bare

/-- New dictionaries on one table are alike if their settings treat values alike. -/
theorem alike_of_settings (t : Table (Entry α)) {settings settings' : Settings}
    (h : settings.bare = settings'.bare) :
    (⟨t, { settings }⟩ : Dict ρ α).Alike ⟨t, { settings := settings' }⟩ :=
  congrArg (fun s => (⟨t.map Entry.bare, { settings := s }⟩ : Dict ρ α)) h

/-- Alike dictionaries show the same. -/
theorem Alike.look_eq {d d' : Dict ρ α} (h : d.Alike d') : d.look = d'.look := by
  rw [← look_bare, h, look_bare]

/-- Alike calls to alike dictionaries answer the same but for who owns keys, and leave alike
dictionaries. -/
theorem Alike.bare_perform {d d' : Dict ρ α} (h : d.Alike d') (access access' : Access)
    {call call' : Call ρ σ α} (hcall : call.Alike call') :
    (access.perform d call).bare = (access'.perform d' call').bare := by
  rw [Access.bare_perform, Access.bare_perform, ← perform_bare, ← perform_bare, h, hcall]

/-- Alike calls one after another show the same. -/
theorem Alike.sights_eq {d d' : Dict ρ α} (h : d.Alike d') (access access' : Access)
    {calls calls' : List (Call ρ σ α)} (hcalls : List.Forall₂ Call.Alike calls calls') :
    access.sights d calls = access'.sights d' calls' := by
  induction hcalls generalizing d d' with
  | nil => rfl
  | cons hcall _ ih =>
    have heffect := h.bare_perform access access' hcall
    have hanswer := congrArg Effect.answer heffect
    have hdeparted := congrArg Effect.departed heffect
    have hdict : (access.perform d _).dict.Alike (access'.perform d' _).dict :=
      congrArg Effect.dict heffect
    rw [Access.sights, Access.sights, ih hdict, Access.look_eq, Access.look_eq, hdict.look_eq]
    congr 2

/-- The dictionaries that two runs of the same operations come to, if keys may be stored another way
in one than in the other. -/
inductive Twins : Dict ρ α → Dict ρ α → Prop where
  /-- New dictionaries of the fewest slots. -/
  | empty {settings settings' : Settings} (h : settings.bare = settings'.bare) :
      Twins (empty settings) (empty settings')
  /-- New dictionaries on at least `n` slots. -/
  | withCapacity {available : Allocator} {n : ℕ} {settings settings' : Settings} {d d' : Dict ρ α}
      (h : settings.bare = settings'.bare) (hd : withCapacity available n settings = .ok d)
      (hd' : withCapacity available n settings' = .ok d') : Twins d d'
  /-- Copies of both. -/
  | copy {d d' : Dict ρ α} (h : Twins d d') : Twins d.copy d'.copy
  /-- What alike calls leave, each made in one way or the other. -/
  | call {σ : Type u} {d d' : Dict ρ α} (h : Twins d d') (access access' : Access)
      {call call' : Call ρ σ α} (hcall : call.Alike call') :
      Twins (access.perform d call).dict (access'.perform d' call').dict

/-- Such runs keep the dictionaries alike. -/
theorem Twins.alike {d d' : Dict ρ α} (h : Twins d d') : d.Alike d' := by
  induction h with
  | empty h => exact alike_of_settings .empty h
  | withCapacity h hd hd' =>
    obtain ⟨t, ht, rfl⟩ := exists_table_of_withCapacity hd
    obtain ⟨t', ht', rfl⟩ := exists_table_of_withCapacity hd'
    obtain rfl : t = t' := Except.ok.inj (ht.symm.trans ht')
    exact alike_of_settings t h
  | copy _ ih => exact congrArg Dict.copy ih
  | call _ access access' hcall ih =>
    exact congrArg Effect.dict (ih.bare_perform access access' hcall)

/-- How keys are stored makes no difference between two dictionaries. -/
structure StorageUnseen (d d' : Dict ρ α) : Prop where
  /-- The dictionaries show the same, in whatever way they are looked at. -/
  look_eq : ∀ access access' : Access, access.look d = access'.look d'
  /-- So do calls to them one after another, after each of them. -/
  sights_eq : ∀ {σ : Type w} (access access' : Access) {calls calls' : List (Call ρ σ α)},
    List.Forall₂ Call.Alike calls calls' → access.sights d calls = access'.sights d' calls'
  /-- What is made of a value through a shared dictionary is made of the value stored. -/
  withValue?_eq : ∀ {β : Type w} (key : Bytes) (f : α → β),
    (SharedDict.mk d).withValue? key f = (d'.get? key).map f

/-- Dictionaries that two runs of the same operations come to show the same from then on, however
each run stores its keys, and new ones are refused alike. -/
theorem storageUnseen_of_twins :
    (∀ (available : Allocator) (n : ℕ) {settings settings' : Settings},
      settings.bare = settings'.bare →
        (withCapacity available n settings : Except Error (Dict ρ α)).map look
          = (withCapacity available n settings').map look) ∧
      ∀ {d d' : Dict ρ α}, Twins d d' → StorageUnseen d d' := by
  refine ⟨fun available n settings settings' h => ?_, fun {d d'} h => ?_⟩
  · rw [withCapacity, withCapacity]
    cases Table.withCapacity (α := Entry α) available n with
    | error e => rfl
    | ok t => exact congrArg Except.ok (alike_of_settings t h).look_eq
  · have halike : d.Alike d' := h.alike
    refine ⟨fun access access' => ?_, fun access access' _ _ hcalls => ?_, fun key f => ?_⟩
    · rw [Access.look_eq, Access.look_eq, halike.look_eq]
    · exact halike.sights_eq access access' hcalls
    · rw [SharedDict.withValue?, ← get?_bare, halike, get?_bare]

/-- A run under settings by which keys are owned, and one through a shared dictionary under settings
by which they are not, with entries replaced by ones whose keys are stored the other way, further
settings, a growth, a walk that keeps some and a removal. Only the owners of the keys that are left
differ. -/
theorem storageUnseen_of_mixed_keys :
    ∃ calls calls' : List (Call ℕ ℕ ℕ),
      Access.direct.sights (empty ⟨false, .keyAndValue, .growAndShrink⟩) calls
        = Access.shared.sights (empty ⟨false, .value, .growAndShrink⟩) calls' ∧
      ((empty ⟨false, .keyAndValue, .growAndShrink⟩ : Dict ℕ ℕ).after calls).entries
        = [⟨.borrowed [100], 10⟩, ⟨.borrowed [97], 4⟩] ∧
      ((empty ⟨false, .value, .growAndShrink⟩ : Dict ℕ ℕ).after calls').entries
        = [⟨.owned [100], 10⟩, ⟨.owned [97], 4⟩] := by
  have htwins : Twins (empty ⟨false, .keyAndValue, .growAndShrink⟩ : Dict ℕ ℕ)
      (empty ⟨false, .value, .growAndShrink⟩) := .empty rfl
  refine ⟨[.request (.insert (fun _ => true) [97] 1), .setRelease (.handTo 7),
      .request (.insertKey (fun _ => true) (.borrowed [98]) 2),
      .request (.insertKey (fun _ => true) (.borrowed [97]) 3),
      .request (.setSettings ⟨true, .value, .growAndShrink⟩),
      .request (.extend (fun _ => true) 2 [([99], 4), ([100], 9)]),
      .request (.retain (fun _ value seen => (⟨value != 2, value + 1⟩, seen + 1)) 0),
      .request (.remove (fun _ => true) [99])],
    [.request (.insertKey (fun _ => true) (.borrowed [97]) 1), .setRelease (.handTo 7),
      .request (.insert (fun _ => true) [98] 2),
      .request (.insertKey (fun _ => true) (.owned [97]) 3),
      .request (.setSettings ⟨true, .keyAndValue, .growAndShrink⟩),
      .request (.extend (fun _ => true) 2 [([99], 4), ([100], 9)]),
      .request (.retain (fun _ value seen => (⟨value != 2, value + 1⟩, seen + 1)) 0),
      .request (.remove (fun _ => true) [99])],
    (storageUnseen_of_twins.2 htwins).sights_eq .direct .shared ?_,
    by decide +kernel, by decide +kernel⟩
  simp only [List.forall₂_cons, List.forall₂_nil_left_iff]
  exact ⟨rfl, rfl, rfl, rfl, rfl, rfl, rfl, rfl, trivial⟩

end Dict

end OpenAddressing
