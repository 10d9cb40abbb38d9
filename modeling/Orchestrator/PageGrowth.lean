import Orchestrator.TraceWalk

/-!
A page that is read while the kernel still writes to it: elements are appended and the
commit word is stored anew, the reader learns of it by `kbuffer_refresh`.
-/

namespace Orchestrator.PageGrowth
open Words RingBuffer TraceRecords TraceWalk

inductive Op
  /-- The kernel commits further elements; all bytes outside of the page may change. -/
  | commit (more : List Record) (other : Mem)
  | refresh
  /-- `kbuffer_read_event`, then `kbuffer_next_event`. -/
  | take

structure Sys where
  page : Page
  mem : Mem
  kbuf : Kbuffer
  taken : List Event

/-- Elements that do not fit go to the next page. -/
def grown (page : Page) (more : List Record) : Page :=
  if fits : span (page.records ++ more) < 2 ^ 27 then
    { page with records := page.records ++ more, small := fits }
  else page

section Runs
variable (host : Host) (big : Bool) (subbuffer : Nat)

def step (sys : Sys) : Op → Option Sys
  | .commit more other =>
      let page := grown sys.page more
      some { sys with
        page := page
        mem := store other subbuffer (page.bytes big (sys.kbuf.has flLong8)) }
  | .refresh => do
      let (_, moved) ← kbufferRefresh host sys.mem sys.kbuf
      pure { sys with kbuf := moved }
  | .take =>
      match current sys.mem sys.kbuf with
      | none => some sys
      | some event => do
          let (_, moved) ← kbufferNextEvent host sys.mem sys.kbuf
          pure { sys with kbuf := moved, taken := sys.taken ++ [event] }

def run (sys : Sys) (ops : List Op) : Option Sys := ops.foldlM (step host big subbuffer) sys

/-- The reader knows the elements `known` of the page; what was taken of their events and
what it has still to hand out are all of them. -/
structure Tracks (sys : Sys) (known fresh : List Record) (left : List Event) : Prop where
  split : sys.page.records = known ++ fresh
  held : Holds sys.mem subbuffer (sys.page.bytes big (sys.kbuf.has flLong8))
  reads : Reads host big sys.kbuf
  place : sys.kbuf.subbuffer = subbuffer
  data : sys.kbuf.data = subbuffer + if sys.kbuf.has flLong8 then 16 else 12
  size : sys.kbuf.size = span known
  position : Position big sys.mem sys.kbuf sys.page.timestamp known left
  whole : sys.taken ++ left = events sys.page.timestamp known

end Runs

section Steps
variable {host : Host} {big : Bool} {subbuffer : Nat} {sys : Sys} {known fresh : List Record}
  {left : List Event}

theorem position_congr {first second : Mem} {kbuf : Kbuffer} {ts : UInt64}
    (same : ∀ addr, kbuf.data ≤ addr → addr < kbuf.data + kbuf.size → second addr = first addr)
    (position : Position big first kbuf ts known left) :
    Position big second kbuf ts known left := by
  rcases position with finished | ⟨front, record, data, rest, parts, here, before, time, split⟩
  · exact Or.inl finished
  · obtain ⟨here', before'⟩ := at_congr same here before
    exact Or.inr ⟨front, record, data, rest, parts, here', before', time, split⟩

theorem Tracks.elements (tracks : Tracks host big subbuffer sys known fresh left) :
    Holds sys.mem sys.kbuf.data (encode big known) ∧
      Holds sys.mem (sys.kbuf.data + span known) (encode big fresh) := by
  obtain ⟨-, -, elements, -⟩ := header_read tracks.reads sys.page tracks.held
  rw [tracks.split, encode_append, holds_append, encode_length, ← tracks.data] at elements
  exact elements

theorem grown_records (page : Page) (more : List Record) :
    ∃ added, (grown page more).records = page.records ++ added ∧
      (grown page more).timestamp = page.timestamp := by
  rw [grown]
  split
  · exact ⟨more, rfl, rfl⟩
  · exact ⟨[], (List.append_nil _).symm, rfl⟩

theorem commit_tracks (tracks : Tracks host big subbuffer sys known fresh left)
    (more : List Record) (other : Mem) :
    ∃ next fresh', step host big subbuffer sys (.commit more other) = some next ∧
      Tracks host big subbuffer next known fresh' left := by
  obtain ⟨added, records, time⟩ := grown_records sys.page more
  have held := store_holds other subbuffer
    ((grown sys.page more).bytes big (sys.kbuf.has flLong8))
  have parts : (grown sys.page more).records = known ++ (fresh ++ added) := by
    rw [records, tracks.split, List.append_assoc]
  obtain ⟨-, -, elements, -⟩ := header_read tracks.reads (grown sys.page more) held
  rw [parts, encode_append, holds_append, ← tracks.data] at elements
  refine ⟨_, fresh ++ added, rfl, parts, held, tracks.reads, tracks.place, tracks.data,
    tracks.size, ?_, ?_⟩
  · rw [time]
    apply position_congr _ tracks.position
    intro addr low high
    rw [tracks.size] at high
    obtain ⟨i, rfl⟩ := Nat.exists_eq_add_of_le low
    exact holds_agree elements.1 tracks.elements.1 (by rw [encode_length]; omega)
  · rw [time]
    exact tracks.whole

/-- The commit word read again. -/
theorem refreshed_size (tracks : Tracks host big subbuffer sys known fresh left) :
    readLong host sys.mem sys.kbuf (sys.kbuf.subbuffer + 8) % 2 ^ 32 &&& commitMask =
      span known + span fresh := by
  obtain ⟨-, commit, -, -⟩ := header_read tracks.reads sys.page tracks.held
  rw [tracks.place, commit, (commit_bits sys.page).1, tracks.split, span_append]

theorem resized_reads (reads : Reads host big sys.kbuf) (size : Nat) :
    Reads host big { sys.kbuf with size := size } :=
  ⟨reads.swaps, reads.wide, reads.order, reads.long, reads.current⟩

/-- A reader at an event only learns of the new end. -/
theorem resized_at (tracks : Tracks host big subbuffer sys known fresh left)
    {front rest : List Record} {record : Record} {data : List UInt8}
    (parts : known = front ++ record :: rest) (here : At big sys.mem sys.kbuf record data)
    (before : Before big sys.mem sys.kbuf rest)
    (time : sys.kbuf.timestamp = clock sys.page.timestamp (front ++ [record]))
    (split : left = (sys.kbuf.timestamp, data) :: events sys.kbuf.timestamp rest) :
    Position big sys.mem { sys.kbuf with size := span known + span fresh } sys.page.timestamp
      (known ++ fresh) (left ++ events (clock sys.page.timestamp known) fresh) := by
  have fits := before.fits
  have small := sys.page.small
  have size := tracks.size
  rw [tracks.split, span_append] at small
  have behind : clock sys.page.timestamp known = clock sys.kbuf.timestamp rest := by
    rw [time, ← clock_append, parts, List.append_assoc]
    rfl
  refine Or.inr ⟨front, record, data, rest ++ fresh, by rw [parts]; simp,
    ⟨here.event, here.held, here.index, here.next⟩, ⟨?_, ?_, small⟩, time, ?_⟩
  · rw [encode_append, holds_append, encode_length]
    refine ⟨before.held, ?_⟩
    have new := tracks.elements.2
    rwa [show sys.kbuf.data + span known = sys.kbuf.data + sys.kbuf.next + span rest by omega]
      at new
  · rw [span_append]
    show sys.kbuf.next + (span rest + span fresh) = span known + span fresh
    omega
  · rw [split, behind, events_append, List.cons_append]

/-- The reader in front of the events that came in. -/
theorem refresh_tracks (tracks : Tracks host big subbuffer sys known fresh left)
    (there : subbuffer ≠ 0) :
    ∃ ret moved, kbufferRefresh host sys.mem sys.kbuf = some (ret, moved) ∧
      Tracks host big subbuffer { sys with kbuf := moved } sys.page.records []
        (left ++ events (clock sys.page.timestamp known) fresh) := by
  have size := refreshed_size tracks
  have loaded : sys.kbuf.subbuffer ≠ 0 := by
    rw [tracks.place]
    exact there
  have whole : sys.taken ++ (left ++ events (clock sys.page.timestamp known) fresh) =
      events sys.page.timestamp sys.page.records := by
    rw [← List.append_assoc, tracks.whole, ← events_append, tracks.split]
  have reads := resized_reads tracks.reads (span known + span fresh)
  have total : span sys.page.records = span known + span fresh := by
    rw [tracks.split, span_append]
  have result : ∀ moved, Moved { sys.kbuf with size := span known + span fresh } moved →
      Position big sys.mem moved sys.page.timestamp (known ++ fresh)
        (left ++ events (clock sys.page.timestamp known) fresh) →
      Tracks host big subbuffer { sys with kbuf := moved } sys.page.records []
        (left ++ events (clock sys.page.timestamp known) fresh) := by
    intro moved move position
    have flags : moved.has flLong8 = sys.kbuf.has flLong8 := by
      rw [move]
      rfl
    obtain ⟨data', size', sub', -⟩ := move.fields
    refine ⟨(List.append_nil _).symm, ?_, move.reads reads, ?_, ?_, ?_, ?_, whole⟩
    · rw [flags]
      exact tracks.held
    · rw [sub']
      exact tracks.place
    · rw [data', flags]
      exact tracks.data
    · rw [size', total]
    · rw [tracks.split]
      exact position
  rcases tracks.position with ⟨finished, time, done⟩ |
    ⟨front, record, data, rest, parts, here, before, time, split⟩
  · obtain ⟨curr, next⟩ := finished
    have known' := tracks.size
    by_cases more : span fresh = 0
    · have none' : fresh = [] := by
        have few := length_le_span fresh
        exact List.length_eq_zero_iff.mp (by omega)
      refine ⟨0, { sys.kbuf with size := span known + span fresh }, ?_, result _ rfl ?_⟩
      · simp only [kbufferRefresh, if_neg loaded, size]
        rw [if_neg (by omega)]
        rfl
      · refine Or.inl ⟨⟨by simp only; omega, by simp only; omega⟩, ?_, ?_⟩
        · rw [none', List.append_nil]
          exact time
        · rw [none', done]
          rfl
    · have small := sys.page.small
      have before : Before big sys.mem { sys.kbuf with size := span known + span fresh } fresh := by
        refine ⟨?_, by simp only; omega, by simp only; omega⟩
        rw [show sys.kbuf.next = span known by omega]
        exact tracks.elements.2
      obtain ⟨ret, moved, event, move, reached⟩ := next_event_reaches reads before
      refine ⟨0, moved, ?_, result moved move ?_⟩
      · simp only [kbufferRefresh, if_neg loaded, size]
        rw [if_pos (by omega), event]
        rfl
      · have position := reached_position reached
        rw [done, List.nil_append, ← time]
        apply Position.behind
        rw [← time]
        exact position
  · have next := here.next
    have pos := size_pos record
    refine ⟨0, { sys.kbuf with size := span known + span fresh }, ?_, result _ rfl ?_⟩
    · simp only [kbufferRefresh, if_neg loaded, size]
      rw [if_neg (by omega)]
      rfl
    · exact resized_at tracks parts here before time split

theorem take_tracks (tracks : Tracks host big subbuffer sys known fresh left)
    (there : subbuffer ≠ 0) :
    ∃ next left', step host big subbuffer sys .take = some next ∧
      Tracks host big subbuffer next known fresh left' := by
  have loaded : sys.kbuf.subbuffer ≠ 0 := by
    rw [tracks.place]
    exact there
  rcases tracks.position with ⟨finished, time, done⟩ |
    ⟨front, record, data, rest, parts, here, before, time, split⟩
  · exact ⟨sys, left, by simp [step, current_end finished], tracks⟩
  · obtain ⟨ret, moved, event, move, reached⟩ := next_event_reaches tracks.reads before
    have flags : moved.has flLong8 = sys.kbuf.has flLong8 := by
      rw [move]
      rfl
    obtain ⟨data', size', sub', -⟩ := move.fields
    have position := reached_position reached
    rw [time] at position
    have behind := position.behind
    rw [List.append_assoc, List.singleton_append, ← parts, ← time] at behind
    refine ⟨{ sys with kbuf := moved, taken := sys.taken ++ [(sys.kbuf.timestamp, data)] },
      events sys.kbuf.timestamp rest, ?_, ?_⟩
    · simp only [step, current_at loaded here before, kbufferNextEvent, if_neg loaded, event]
      rfl
    · refine ⟨tracks.split, ?_, move.reads tracks.reads, ?_, ?_, ?_, behind, ?_⟩
      · rw [flags]
        exact tracks.held
      · rw [sub']
        exact tracks.place
      · rw [data', flags]
        exact tracks.data
      · rw [size']
        exact tracks.size
      · rw [← tracks.whole, split, List.append_assoc]
        rfl

theorem step_tracks (there : subbuffer ≠ 0)
    (tracks : Tracks host big subbuffer sys known fresh left) (op : Op) :
    ∃ next known' fresh' left', step host big subbuffer sys op = some next ∧
      Tracks host big subbuffer next known' fresh' left' := by
  cases op with
  | commit more other =>
      obtain ⟨next, fresh', stepped, tracks'⟩ := commit_tracks tracks more other
      exact ⟨next, known, fresh', left, stepped, tracks'⟩
  | refresh =>
      obtain ⟨ret, moved, call, tracks'⟩ := refresh_tracks tracks there
      refine ⟨{ sys with kbuf := moved }, sys.page.records, [], _, ?_, tracks'⟩
      simp [step, call]
  | take =>
      obtain ⟨next, left', stepped, tracks'⟩ := take_tracks tracks there
      exact ⟨next, known, fresh, left', stepped, tracks'⟩

theorem run_tracks (there : subbuffer ≠ 0)
    (tracks : Tracks host big subbuffer sys known fresh left) (ops : List Op) :
    ∃ next known' fresh' left', run host big subbuffer sys ops = some next ∧
      Tracks host big subbuffer next known' fresh' left' := by
  induction ops generalizing sys known fresh left with
  | nil => exact ⟨sys, known, fresh, left, rfl, tracks⟩
  | cons op ops ih =>
      obtain ⟨middle, known', fresh', left', stepped, kept⟩ := step_tracks there tracks op
      obtain ⟨next, known'', fresh'', left'', ran, kept'⟩ := ih kept
      refine ⟨next, known'', fresh'', left'', ?_, kept'⟩
      rw [run, List.foldlM_cons, stepped]
      exact ran

theorem load_tracks {mem : Mem} {page : Page} {kbuf loaded : Kbuffer} 
    (held : Holds mem subbuffer (page.bytes big (kbuf.has flLong8)))
    (place : loaded.subbuffer = subbuffer)
    (ready : Loaded host big mem subbuffer page kbuf loaded) :
    Tracks host big subbuffer ⟨page, mem, loaded, []⟩ page.records [] page.events := by
  have flags : loaded.has flLong8 = kbuf.has flLong8 := by
    rw [Kbuffer.has, ready.flags, Kbuffer.has]
  refine ⟨(List.append_nil _).symm, ?_, ready.reads, place, ?_, ready.size, ready.position, rfl⟩
  · rw [flags]
    exact held
  · rw [← ready.start]
    exact ready.data

end Steps

/-- However commits, refreshes and reads follow one another, what was taken and what a
refresh and a walk then find are the events of the page, each once and in order. -/
theorem growing_page_read (host : Host) (size : LongSize) (endian : Endian)
    (native : endian = .sameAsHost → host.bigEndian = false)
    (wide : host.bigEndian ≠ wanted host endian → host.long8 = true)
    (mem : Mem) (subbuffer : Nat) (there : subbuffer ≠ 0) (page : Page)
    (held : Holds mem subbuffer
      (page.bytes (wanted host endian) ((kbufferAlloc host size endian).has flLong8)))
    (ops : List Op) :
    ∃ loaded last ret moved left finish,
      kbufferLoadSubbuffer host mem (kbufferAlloc host size endian) subbuffer = some (0, loaded) ∧
        run host (wanted host endian) subbuffer ⟨page, mem, loaded, []⟩ ops = some last ∧
        kbufferRefresh host last.mem last.kbuf = some (ret, moved) ∧
        collect host last.mem turns moved = some (left, finish) ∧
        last.taken ++ left = last.page.events := by
  have order := read_order_wanted host endian native
  rw [← order] at wide held ⊢
  have reads := alloc_reads host size endian wide
  obtain ⟨loaded, load, ready⟩ := load_page reads there page held
  obtain ⟨last, known, fresh, left, ran, tracks⟩ :=
    run_tracks there (load_tracks held ready.place ready) ops
  obtain ⟨ret, moved, refresh, tracks'⟩ := refresh_tracks tracks there
  have few : (left ++ events (clock last.page.timestamp known) fresh).length < turns := by
    have all := page_events_lt last.page
    have whole := tracks'.whole
    rw [Page.events, ← whole, List.length_append] at all
    omega
  obtain ⟨finish, walk, -⟩ := collect_remaining tracks'.reads
    (by rw [tracks'.place]; exact there) tracks'.position.remaining few
  exact ⟨loaded, last, ret, moved, _, finish, load, ran, refresh, walk, tracks'.whole⟩

/-- A record comes in, in between two reads. -/
def interrupted : List Op :=
  [.take, .commit [.short ⟨2, by decide⟩ [7, 7, 7, 7] (by decide)] (mixedMem false), .take,
    .refresh, .take]

theorem growing_mixed_page :
    ∃ loaded last ret moved left finish,
      kbufferLoadSubbuffer {} (mixedMem false) (kbufferAlloc {} .sameAsHost .sameAsHost) 64 =
          some (0, loaded) ∧
        run {} false 64 ⟨mixedPage, mixedMem false, loaded, []⟩ interrupted = some last ∧
        kbufferRefresh {} last.mem last.kbuf = some (ret, moved) ∧
        collect {} last.mem turns moved = some (left, finish) ∧
        last.taken ++ left = last.page.events :=
  growing_page_read {} .sameAsHost .sameAsHost (fun _ => rfl) (fun _ => rfl) (mixedMem false) 64
    (by decide) mixedPage (store_holds _ 64 _) interrupted

end Orchestrator.PageGrowth
