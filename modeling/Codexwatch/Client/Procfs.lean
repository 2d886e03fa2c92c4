import Codexwatch.Capture.Address
import Codexwatch.Client.Flow
import Codexwatch.Client.ProcessIndex
import Codexwatch.Lib.Chunks

/-!
# Files of `/proc` and frames

`ProcessFlowIndex::from_proc_root` and `decode_segment` of `capture/src/af_packet.rs`. The
sockets of a process come from its file descriptors and from the tables of the kernel, the
segments from packets.

The kernel prints an address as words of four octets in the order of the host, which is taken
to be little-endian here.

## Main definitions

* `fromProcRoot` — the index from the files of `/proc`.
* `decodeSegment` — the segment of a frame.
* `KernelTables`, `ProcessFiles` — what the kernel prints in these files.
* `loadTcpEntries_eq`, `socketInodesForPid_eq` — what is printed is read back.
-/
namespace Codexwatch.Client

open Protocol Capture Relational Check Text

/-! ## Reading `/proc` -/

inductive ProcLookupError
  | io
  | missingInterface (index : ℤ)
  | invalidProcLine (line : String)
  deriving DecidableEq

structure TcpEntry where
  localIp : String
  localPort : ℕ
  remoteIp : String
  remotePort : ℕ
  ipv6 : Bool
  deriving DecidableEq

/-- What is read of `/proc`: the names and the link targets in the directory of descriptors,
and two tables. A read that fails gives nothing. -/
structure ProcRoot where
  fd : Option (List (String × Option String))
  tcp : Option String
  tcp6 : Option String

/-- `from_str_radix` of an unsigned type of `bits` bits. -/
def fromStrRadixBits (bits radix : ℕ) (cs : List Char) : Option ℕ :=
  (fromStrRadix radix (String.ofList cs)).filter fun n => n < 2 ^ bits

/-- `parse::<i32>` -/
def parseI32 (text : String) : Option ℤ :=
  match text.toList with
  | '-' :: '+' :: _ => none
  | '-' :: rest =>
      ((fromStrRadix 10 (String.ofList rest)).filter fun n => n ≤ 2 ^ 31).map fun n => -(n : ℤ)
  | cs => (fromStrRadixBits 31 10 cs).map Int.ofNat

def invalidLine (cs : List Char) : ProcLookupError := .invalidProcLine (String.ofList cs)

/-- `u32::to_le_bytes` -/
def toLeBytes (n : ℕ) : List UInt8 :=
  [UInt8.ofNat n, UInt8.ofNat (n / 256), UInt8.ofNat (n / 65536), UInt8.ofNat (n / 16777216)]

def parseIpv4Address (value : List Char) : Except ProcLookupError (List Char) := do
  let raw ← required (fromStrRadixBits 32 16 value) (invalidLine value)
  pure (Ipv4Addr.display ⟨toLeBytes raw, rfl⟩)

/-- The octets of the words. -/
def parseWords (value : List Char) : Except ProcLookupError (List (List UInt8)) :=
  (Chunks.chunks 8 (textBytes (String.ofList value))).mapM fun chunk => do
    let text ← required (fromUtf8 chunk) (invalidLine value)
    let word ← required (fromStrRadixBits 32 16 text.toList) (invalidLine value)
    pure (toLeBytes word)

/-- Thirty-two bytes are four words, and so sixteen octets. -/
def parseIpv6Address (value : List Char) : Except ProcLookupError (List Char) := do
  ensure ((textBytes (String.ofList value)).length = 32) (invalidLine value)
  let words ← parseWords value
  if h : words.flatten.length = 16 then pure (Ipv6Addr.display ⟨words.flatten, h⟩)
  else .error (invalidLine value)

def parseProcSocketAddress (value : List Char) (ipv6 : Bool) :
    Except ProcLookupError (List Char × ℕ) := do
  let (address, port) ← required (splitOnce ':' value) (invalidLine value)
  let port ← required (fromStrRadixBits 16 16 port) (invalidLine value)
  let address ← if ipv6 then parseIpv6Address address else parseIpv4Address address
  pure (address, port)

/-- The second, the third and the tenth column. -/
def parseTcpLine (line : List Char) (ipv6 : Bool) : Except ProcLookupError (ℕ × TcpEntry) :=
  match words line with
  | _ :: localText :: remoteText :: _ :: _ :: _ :: _ :: _ :: _ :: inodeText :: _ => do
      let (localIp, localPort) ← parseProcSocketAddress localText ipv6
      let (remoteIp, remotePort) ← parseProcSocketAddress remoteText ipv6
      let inode ← required (fromStrRadix 10 (String.ofList inodeText)) (invalidLine line)
      pure (inode,
        ⟨String.ofList localIp, localPort, String.ofList remoteIp, remotePort, ipv6⟩)
  | _ => .error (invalidLine line)

/-- The lines of one table below its heading. -/
def loadTable (contents : String) (ipv6 : Bool) (entries : Table ℕ TcpEntry) :
    Except ProcLookupError (Table ℕ TcpEntry) :=
  (((linesOf contents.toList).drop 1).filter fun line => !line.all isWhitespace).foldlM
    (fun entries line => do
      let (inode, entry) ← parseTcpLine line ipv6
      pure (entries.put inode entry)) entries

def loadTcpEntries (root : ProcRoot) : Except ProcLookupError (Table ℕ TcpEntry) := do
  let tcp ← required root.tcp .io
  let entries ← loadTable tcp false .empty
  let tcp6 ← required root.tcp6 .io
  loadTable tcp6 true entries

def parseSocketInode (target : String) : Option ℕ := do
  let rest ← stripPrefix "socket:[" target
  if rest.toList.getLast? = some ']' then fromStrRadix 10 (String.ofList rest.toList.dropLast)
  else none

def socketInodesForPid (root : ProcRoot) : Except ProcLookupError (Table ℤ ℕ) := do
  let entries ← required root.fd .io
  entries.foldlM (fun sockets (name, link) =>
    match parseI32 name with
    | none => pure sockets
    | some fd => do
        let target ← required link .io
        match parseSocketInode target with
        | none => pure sockets
        | some inode => pure (sockets.put fd inode)) .empty

/-- The flows come in the order of the descriptors. -/
def fromProcRoot (root : ProcRoot) (pid : ℕ) : Except ProcLookupError ProcessFlowIndex := do
  let inodeMap ← socketInodesForPid root
  let tcpEntries ← loadTcpEntries root
  let descriptors := inodeMap.rows.mergeSort fun r r' => r.1 ≤ r'.1
  pure ⟨pid, descriptors.filterMap fun (fd, inode) =>
    (tcpEntries.get? inode).map fun entry =>
      { pid, fd, inode
        localIp := entry.localIp
        localPort := entry.localPort
        remoteIp := entry.remoteIp
        remotePort := entry.remotePort
        ipv6 := entry.ipv6 }⟩

/-! ## Frames -/

structure TcpSlice where
  sourcePort : UInt16
  destinationPort : UInt16
  sequenceNumber : UInt32
  syn : Bool
  fin : Bool
  rst : Bool
  payload : Bytes

inductive NetSlice
  | ipv4 (sourceAddr destinationAddr : Ipv4Addr)
  | ipv6 (sourceAddr destinationAddr : Ipv6Addr)
  | other

inductive TransportSlice
  | tcp (tcp : TcpSlice)
  | other

structure SlicedPacket where
  net : Option NetSlice
  transport : Option TransportSlice

/-- The library that takes packets apart. -/
structure Etherparse where
  fromEthernet : Bytes → Except String SlicedPacket
  fromIp : Bytes → Except String SlicedPacket

inductive PacketDecodeError
  | parse (message : String)
  deriving DecidableEq

/-- The packet in the frame. One that does not begin like IP is left to the link layer. -/
def slicedPacket (library : Etherparse) (frame : Bytes) :
    Except PacketDecodeError (Option SlicedPacket) :=
  let likeIp := frame.head?.any fun b : UInt8 => b >>> 4 == 4 || b >>> 4 == 6
  let asIp := ((library.fromIp frame).map some).mapError .parse
  match library.fromEthernet frame with
  | .ok packet =>
      if (packet.net.isSome || packet.transport.isSome) || !likeIp then .ok (some packet)
      else asIp
  | .error _ => if likeIp then asIp else .ok none

/-- The addresses of the packet. -/
def SlicedPacket.addresses (packet : SlicedPacket) : Option (IpAddr × IpAddr) :=
  match packet.net with
  | some (.ipv4 source destination) => some (.v4 source, .v4 destination)
  | some (.ipv6 source destination) => some (.v6 source, .v6 destination)
  | _ => none

def SlicedPacket.tcp? (packet : SlicedPacket) : Option TcpSlice :=
  match packet.transport with
  | some (.tcp tcp) => some tcp
  | _ => none

def ipText (ip : IpAddr) : String := String.ofList ip.display

def SlicedPacket.segment? (packet : SlicedPacket) : Option TcpSegment := do
  let (source, destination) ← packet.addresses
  let tcp ← packet.tcp?
  pure {
    sourceIp := ipText source
    sourcePort := tcp.sourcePort.toNat
    destinationIp := ipText destination
    destinationPort := tcp.destinationPort.toNat
    sequence := tcp.sequenceNumber.toNat
    syn := tcp.syn
    fin := tcp.fin
    rst := tcp.rst
    payload := tcp.payload }

def decodeSegment (library : Etherparse) (frame : Bytes) :
    Except PacketDecodeError (Option TcpSegment) :=
  (slicedPacket library frame).map fun packet => packet.bind SlicedPacket.segment?

/-! ## What the kernel prints -/

/-- A number in at least `width` places. -/
def padded (width : ℕ) (cs : List Char) : List Char :=
  List.replicate (width - cs.length) ' ' ++ cs

/-- The word of the octets on a little-endian host. -/
def ofLeBytes (octets : List UInt8) : ℕ := octets.foldr (fun b n => b.toNat + 256 * n) 0

def wordsOf : List UInt8 → List (List UInt8)
  | a :: b :: c :: d :: rest => [a, b, c, d] :: wordsOf rest
  | _ => []

/-- `%08X` of the word. -/
def hexWord (octets : List UInt8) : List Char := upperHex 8 (ofLeBytes octets)

def hexIpv4 (a : Ipv4Addr) : List Char := hexWord a.octets

def hexIpv6 (a : Ipv6Addr) : List Char := (wordsOf a.octets).flatMap hexWord

/-- A row of `/proc/net/tcp` or `/proc/net/tcp6`. -/
structure SocketRow (α : Type) where
  slot : ℕ
  localAddress : α
  localPort : UInt16
  remoteAddress : α
  remotePort : UInt16
  state : ℕ
  txQueue : ℕ
  rxQueue : ℕ
  timer : ℕ
  expires : ℕ
  retransmits : ℕ
  uid : ℕ
  probes : ℕ
  inode : UInt64
  /-- The columns behind the inode. -/
  tail : List Char
  tail_oneLine : '\n' ∉ tail ∧ '\r' ∉ tail

/-- `%d` -/
def decimal (n : ℕ) : List Char := n.repr.toList

section Rows
variable {α : Type} (hex : α → List Char) (row : SocketRow α)

/-- The columns up to the inode, with their widths. -/
def SocketRow.columns : List (ℕ × List Char) :=
  [(5, decimal row.slot ++ [':']),
    (0, hex row.localAddress ++ ':' :: upperHex 4 row.localPort.toNat),
    (0, hex row.remoteAddress ++ ':' :: upperHex 4 row.remotePort.toNat),
    (0, upperHex 2 row.state),
    (0, upperHex 8 row.txQueue ++ ':' :: upperHex 8 row.rxQueue),
    (0, upperHex 2 row.timer ++ ':' :: upperHex 8 row.expires),
    (0, upperHex 8 row.retransmits),
    (5, decimal row.uid),
    (8, decimal row.probes),
    (0, decimal row.inode.toNat)]

def SocketRow.line : List Char :=
  ((row.columns hex).flatMap fun column => padded column.1 column.2 ++ [' ']) ++ row.tail

end Rows

/-- A table: its heading and its rows. -/
def tableText (heading : List Char) (rows : List (List Char)) : String :=
  String.ofList ((heading :: rows).flatMap fun line => line ++ ['\n'])

/-- The sockets of both tables. Sockets that belong to a file have inodes of their own. -/
structure KernelTables where
  heading : List Char
  tcp : List (SocketRow Ipv4Addr)
  heading6 : List Char
  tcp6 : List (SocketRow Ipv6Addr)
  heading_line : Line heading
  heading6_line : Line heading6
  inodes : ((tcp.map SocketRow.inode ++ tcp6.map SocketRow.inode).filter (· ≠ 0)).Nodup

/-- What a descriptor stands for. -/
inductive FileTarget
  | socket (inode : UInt64) (ne_zero : inode ≠ 0)
  | other (target : String) (noSocket : stripPrefix "socket:[" target = none)

def FileTarget.text : FileTarget → String
  | .socket inode _ => "socket:[" ++ String.ofList (decimal inode.toNat) ++ "]"
  | .other target _ => target

def FileTarget.inode? : FileTarget → Option UInt64
  | .socket inode _ => some inode
  | .other .. => none

/-- The descriptors of a process. -/
structure ProcessFiles where
  descriptors : List (ℕ × FileTarget)
  small : ∀ d ∈ descriptors, d.1 < 2 ^ 31
  nodup : (descriptors.map Prod.fst).Nodup

def procRootOf (tables : KernelTables) (files : ProcessFiles) : ProcRoot where
  fd := some (files.descriptors.map fun d => (String.ofList (decimal d.1), some d.2.text))
  tcp := some (tableText tables.heading (tables.tcp.map (SocketRow.line hexIpv4)))
  tcp6 := some (tableText tables.heading6 (tables.tcp6.map (SocketRow.line hexIpv6)))

inductive KernelSocket
  | inet (row : SocketRow Ipv4Addr)
  | inet6 (row : SocketRow Ipv6Addr)

/-- The address in the packets: behind an IPv4-mapped address there is an IPv4 connection. -/
def wireAddress (a : Ipv6Addr) : IpAddr :=
  match a.toIpv4Mapped with
  | some v4 => .v4 v4
  | none => .v6 a

namespace KernelSocket

def inode : KernelSocket → UInt64
  | .inet row => row.inode
  | .inet6 row => row.inode

def localEnd : KernelSocket → Endpoint IpAddr
  | .inet row => ⟨.v4 row.localAddress, row.localPort.toNat⟩
  | .inet6 row => ⟨wireAddress row.localAddress, row.localPort.toNat⟩

def remoteEnd : KernelSocket → Endpoint IpAddr
  | .inet row => ⟨.v4 row.remoteAddress, row.remotePort.toNat⟩
  | .inet6 row => ⟨wireAddress row.remoteAddress, row.remotePort.toNat⟩

/-- An IPv6 socket that is printed with an IPv4-mapped address. -/
def Mapped : KernelSocket → Prop
  | .inet _ => False
  | .inet6 row =>
      row.localAddress.toIpv4Mapped.isSome ∨ row.remoteAddress.toIpv4Mapped.isSome

end KernelSocket

def KernelTables.sockets (tables : KernelTables) : List KernelSocket :=
  tables.tcp.map .inet ++ tables.tcp6.map .inet6

/-- The sockets of the process. -/
def ProcessFiles.sockets (files : ProcessFiles) (tables : KernelTables) : List KernelSocket :=
  tables.sockets.filter fun socket =>
    files.descriptors.any fun d => d.2.inode? = some socket.inode

/-! ## The tables are read back -/

theorem fromStrRadixBits_spelling {n bits : ℕ} (size : Spelling n) (hbits : bits ≤ 64)
    (hn : n < 2 ^ bits) : fromStrRadixBits bits 16 size.digits = some n := by
  have hword : n < 2 ^ 64 := hn.trans_le (Nat.pow_le_pow_right (by decide) hbits)
  rw [fromStrRadixBits, size.fromStrRadix hword, Option.filter_some, if_pos (by simpa using hn)]

theorem word_upperHex (width n : ℕ) : Word (upperHex width n) := (upperSpelling width n).word

theorem word_colon : Word [':'] := ⟨by simp, by simp; decide⟩

theorem word_joined {v w : List Char} (hv : Word v) (hw : Word w) : Word (v ++ ':' :: w) := by
  have hrest : Word ([':'] ++ w) := word_colon.append hw
  exact hv.append hrest

theorem word_decimal (n : ℕ) : Word (decimal n) where
  ne_nil := by
    rw [decimal, Nat.toList_repr]
    exact Nat.toDigits_ne_nil
  solid c hc := by
    have hdigit := isDigit_of_mem_repr hc
    have hzero : '0'.toNat = 48 := rfl
    have hnine : '9'.toNat = 57 := rfl
    rw [Char.isDigit_iff_toNat, hzero, hnine] at hdigit
    simp only [isWhitespace, Bool.or_eq_false_iff, Bool.and_eq_false_iff,
      decide_eq_false_iff_not]
    omega

theorem ofLeBytes_lt (a b c d : UInt8) : ofLeBytes [a, b, c, d] < 2 ^ 32 := by
  have := a.toNat_lt
  have := b.toNat_lt
  have := c.toNat_lt
  have := d.toNat_lt
  simp only [ofLeBytes, List.foldr_cons, List.foldr_nil]
  omega

theorem toLeBytes_ofLeBytes (a b c d : UInt8) :
    toLeBytes (ofLeBytes [a, b, c, d]) = [a, b, c, d] := by
  have ha := a.toNat_lt
  have hb := b.toNat_lt
  have hc := c.toNat_lt
  have hd := d.toNat_lt
  simp only [toLeBytes, ofLeBytes, List.foldr_cons, List.foldr_nil, List.cons.injEq, and_true,
    ← UInt8.toNat_inj, UInt8.toNat_ofNat']
  omega

/-- A word reads as the octets it was printed from. -/
theorem fromStrRadixBits_hexWord (a b c d : UInt8) :
    fromStrRadixBits 32 16 (hexWord [a, b, c, d]) = some (ofLeBytes [a, b, c, d]) :=
  fromStrRadixBits_spelling (upperSpelling 8 (ofLeBytes [a, b, c, d])) (by decide)
    (ofLeBytes_lt a b c d)

theorem length_hexWord (a b c d : UInt8) : (hexWord [a, b, c, d]).length = 8 :=
  length_upperHex (by decide) ((ofLeBytes_lt a b c d).trans_le (by decide))

theorem word_hexWord (octets : List UInt8) : Word (hexWord octets) := word_upperHex 8 _

theorem parseIpv4Address_hexIpv4 (a : Ipv4Addr) :
    parseIpv4Address (hexIpv4 a) = .ok a.display := by
  obtain ⟨octets, hlength⟩ := a
  obtain ⟨a, b, c, d, rfl⟩ := List.length_eq_four.mp hlength
  rw [parseIpv4Address, hexIpv4, fromStrRadixBits_hexWord]
  simp only [required, bind, Except.bind, pure, Except.pure, toLeBytes_ofLeBytes]

/-! ## Addresses of four words -/

theorem flatten_wordsOf (octets : List UInt8) (h : octets.length % 4 = 0) :
    (wordsOf octets).flatten = octets := by
  induction octets using wordsOf.induct with
  | case1 a b c d rest ih =>
      rw [wordsOf, List.flatten_cons, ih (by simp only [List.length_cons] at h; omega)]
      rfl
  | case2 octets hshort =>
      match octets with
      | [] => rfl
      | [_] | [_, _] | [_, _, _] => simp at h
      | a :: b :: c :: d :: rest => exact absurd rfl (hshort a b c d rest)

theorem mem_wordsOf {octets word : List UInt8} (h : word ∈ wordsOf octets) :
    ∃ a b c d, word = [a, b, c, d] := by
  induction octets using wordsOf.induct with
  | case1 a b c d rest ih =>
      rw [wordsOf, List.mem_cons] at h
      exact h.elim (fun hword => ⟨a, b, c, d, hword⟩) ih
  | case2 octets hshort =>
      rw [wordsOf] at h
      · simp at h
      · exact hshort

/-- Hexadecimal digits are one byte each. -/
theorem length_textBytes_digits {cs : List Char} (h : ∀ c ∈ cs, isAsciiHexdigit c = true) :
    (textBytes (String.ofList cs)).length = cs.length := by
  rw [textBytes_eq, String.toList_ofList]
  induction cs with
  | nil => rfl
  | cons c cs ih =>
      rw [List.forall_mem_cons] at h
      have hrange := toNat_of_isAsciiHexdigit h.1
      have hsize : c.utf8Size = 1 := by
        rw [Char.utf8Size_eq_one_iff, UInt32.le_iff_toNat_le]
        change c.toNat ≤ 127
        omega
      rw [List.flatMap_cons, List.length_append, ih h.2, String.length_utf8EncodeChar, hsize,
        List.length_cons]
      omega

theorem textBytes_ofList_append (cs ds : List Char) :
    textBytes (String.ofList (cs ++ ds)) =
      textBytes (String.ofList cs) ++ textBytes (String.ofList ds) := by
  simp [textBytes_eq]

theorem hexdigit_of_mem_hexWord {octets : List UInt8} {c : Char} (h : c ∈ hexWord octets) :
    isAsciiHexdigit c = true := (upperSpelling 8 (ofLeBytes octets)).hexadecimal c h

theorem length_textBytes_hexWord {word : List UInt8} (h : ∃ a b c d, word = [a, b, c, d]) :
    (textBytes (String.ofList (hexWord word))).length = 8 := by
  obtain ⟨a, b, c, d, rfl⟩ := h
  rw [length_textBytes_digits fun _ hc => hexdigit_of_mem_hexWord hc, length_hexWord]

/-- The chunks of eight bytes are the words. -/
theorem chunks_hexWords {words : List (List UInt8)}
    (h : ∀ word ∈ words, ∃ a b c d, word = [a, b, c, d]) :
    Chunks.chunks 8 (textBytes (String.ofList (words.flatMap hexWord))) =
      words.map fun word => textBytes (String.ofList (hexWord word)) := by
  induction words with
  | nil => exact Chunks.chunks_nil 8
  | cons word words ih =>
      rw [List.forall_mem_cons] at h
      rw [List.flatMap_cons, textBytes_ofList_append,
        Chunks.chunks_append (by decide) (length_textBytes_hexWord h.1), ih h.2, List.map_cons]

theorem parseWords_hexWords {words : List (List UInt8)}
    (h : ∀ word ∈ words, ∃ a b c d, word = [a, b, c, d]) :
    parseWords (words.flatMap hexWord) = .ok words := by
  rw [parseWords, chunks_hexWords h, List.mapM_map]
  conv_rhs => rw [← List.map_id words]
  apply mapM_eq_ok_map
  intro word hword
  obtain ⟨a, b, c, d, rfl⟩ := h word hword
  simp only [Function.comp_apply, fromUtf8_textBytes, String.toList_ofList,
    fromStrRadixBits_hexWord, required, bind, Except.bind, pure, Except.pure,
    toLeBytes_ofLeBytes, id]

theorem length_textBytes_hexWords {words : List (List UInt8)}
    (h : ∀ word ∈ words, ∃ a b c d, word = [a, b, c, d]) :
    (textBytes (String.ofList (words.flatMap hexWord))).length = 2 * words.flatten.length := by
  induction words with
  | nil => rfl
  | cons word words ih =>
      rw [List.forall_mem_cons] at h
      rw [List.flatMap_cons, textBytes_ofList_append, List.length_append,
        length_textBytes_hexWord h.1, ih h.2]
      obtain ⟨a, b, c, d, rfl⟩ := h.1
      simp only [List.flatten_cons, List.length_append, List.length_cons, List.length_nil]
      omega

theorem parseIpv6Address_hexIpv6 (a : Ipv6Addr) :
    parseIpv6Address (hexIpv6 a) = .ok a.display := by
  have hwords := fun word (hword : word ∈ wordsOf a.octets) => mem_wordsOf hword
  have hoctets : (wordsOf a.octets).flatten = a.octets :=
    flatten_wordsOf a.octets (by rw [a.length_octets])
  have hlength : (textBytes (String.ofList (hexIpv6 a))).length = 32 := by
    rw [hexIpv6, length_textBytes_hexWords hwords, hoctets, a.length_octets]
  rw [parseIpv6Address, ensure, if_pos hlength, hexIpv6, parseWords_hexWords hwords]
  simp only [bind, Except.bind, hoctets]
  rw [dif_pos a.length_octets]
  rfl

/-! ## Rows and tables -/

/-- What the columns of a row are read as. -/
structure Readable (hex : List Char) (address : List Char) (ipv6 : Bool) : Prop where
  word : Word hex
  noColon : ':' ∉ hex
  parse : (if ipv6 then parseIpv6Address hex else parseIpv4Address hex) = .ok address

theorem colon_notMem_digits {cs : List Char} (h : ∀ c ∈ cs, isAsciiHexdigit c = true) :
    ':' ∉ cs := by
  intro hcolon
  have hdigit := h ':' hcolon
  revert hdigit
  decide

theorem readable_hexIpv4 (a : Ipv4Addr) : Readable (hexIpv4 a) a.display false where
  word := word_hexWord a.octets
  noColon := colon_notMem_digits fun _ hc => hexdigit_of_mem_hexWord hc
  parse := parseIpv4Address_hexIpv4 a

theorem readable_hexIpv6 (a : Ipv6Addr) : Readable (hexIpv6 a) a.display true where
  word := by
    have hwords := fun word (hword : word ∈ wordsOf a.octets) => mem_wordsOf hword
    have hoctets : (wordsOf a.octets).flatten = a.octets :=
      flatten_wordsOf a.octets (by rw [a.length_octets])
    refine ⟨?_, ?_⟩
    · intro hnil
      have hlength := length_textBytes_hexWords hwords
      rw [hoctets, a.length_octets, ← hexIpv6, hnil] at hlength
      simp [textBytes_eq] at hlength
    · intro c hc
      obtain ⟨word, -, hmem⟩ := List.mem_flatMap.mp hc
      exact (word_hexWord word).solid c hmem
  noColon := by
    refine colon_notMem_digits fun c hc => ?_
    obtain ⟨word, -, hmem⟩ := List.mem_flatMap.mp hc
    exact hexdigit_of_mem_hexWord hmem
  parse := parseIpv6Address_hexIpv6 a

theorem parseProcSocketAddress_eq {hex address : List Char} {ipv6 : Bool}
    (h : Readable hex address ipv6) (port : UInt16) :
    parseProcSocketAddress (hex ++ ':' :: upperHex 4 port.toNat) ipv6 =
      .ok (address, port.toNat) := by
  have hport : fromStrRadixBits 16 16 (upperHex 4 port.toNat) = some port.toNat :=
    fromStrRadixBits_spelling (upperSpelling 4 port.toNat) (by decide) port.toNat_lt
  have hparse := h.parse
  rw [parseProcSocketAddress, splitOnce_eq h.noColon]
  cases ipv6
  · simp only [required, bind, Except.bind, hport, Bool.false_eq_true, if_false] at hparse ⊢
    rw [hparse]
    rfl
  · simp only [required, bind, Except.bind, hport, if_true] at hparse ⊢
    rw [hparse]
    rfl

example : parseProcSocketAddress "00000000000000000000000001000000:1F90".toList true =
    .ok ("::1".toList, 8080) := by decide +kernel

theorem fromStrRadix_decimal (n : UInt64) :
    fromStrRadix 10 (String.ofList (decimal n.toNat)) = some n.toNat := by
  rw [decimal, String.ofList_toList]
  exact fromStrRadix_repr n.toNat_lt

/-- The words of a line are those of its columns. -/
theorem words_columns {columns : List (ℕ × List Char)} (h : ∀ c ∈ columns, Word c.2)
    (tail : List Char) :
    words ((columns.flatMap fun column => padded column.1 column.2 ++ [' ']) ++ tail) =
      columns.map Prod.snd ++ words tail := by
  induction columns with
  | nil => rfl
  | cons column columns ih =>
      rw [List.forall_mem_cons] at h
      rw [List.flatMap_cons, padded, List.append_assoc, List.append_assoc, List.append_assoc,
        words_padded, List.singleton_append, h.1.words_cons, ih h.2]
      rfl

section Row
variable {α : Type} {hex : α → List Char} {display : α → List Char} {ipv6 : Bool}
  (h : ∀ a, Readable (hex a) (display a) ipv6) (row : SocketRow α)
include h

theorem word_columns : ∀ column ∈ row.columns hex, Word column.2 := by
  simp only [SocketRow.columns, List.forall_mem_cons, List.not_mem_nil, false_imp_iff,
    implies_true, and_true]
  exact ⟨(word_decimal _).append word_colon, word_joined (h _).word (word_upperHex _ _),
    word_joined (h _).word (word_upperHex _ _), word_upperHex _ _,
    word_joined (word_upperHex _ _) (word_upperHex _ _),
    word_joined (word_upperHex _ _) (word_upperHex _ _), word_upperHex _ _, word_decimal _,
    word_decimal _, word_decimal _⟩

/-- The entry that is read from the row. -/
def entryOf (display : α → List Char) (ipv6 : Bool) (row : SocketRow α) : TcpEntry where
  localIp := String.ofList (display row.localAddress)
  localPort := row.localPort.toNat
  remoteIp := String.ofList (display row.remoteAddress)
  remotePort := row.remotePort.toNat
  ipv6 := ipv6

theorem parseTcpLine_line :
    parseTcpLine (row.line hex) ipv6 = .ok (row.inode.toNat, entryOf display ipv6 row) := by
  have hwords := words_columns (word_columns h row) row.tail
  rw [parseTcpLine, SocketRow.line, hwords]
  simp only [SocketRow.columns, List.map_cons, List.map_nil, List.cons_append]
  rw [parseProcSocketAddress_eq (h row.localAddress), parseProcSocketAddress_eq (h row.remoteAddress)]
  simp only [bind, Except.bind, fromStrRadix_decimal, required]
  rfl

theorem notMem_line {c : Char} (hblank : isWhitespace c = true) (hc : c ≠ ' ')
    (htail : c ∉ row.tail) : c ∉ row.line hex := by
  rw [SocketRow.line, List.mem_append, not_or]
  refine ⟨?_, htail⟩
  intro hmem
  obtain ⟨column, hcolumn, hmem⟩ := List.mem_flatMap.mp hmem
  simp only [padded, List.mem_append, List.mem_replicate, List.mem_singleton, hc, and_false,
    false_or, or_false] at hmem
  have hsolid := (word_columns h row column hcolumn).solid c hmem
  rw [hblank] at hsolid
  cases hsolid

theorem line_line : Line (row.line hex) where
  lineFeed := notMem_line h row (by decide) (by decide) row.tail_oneLine.1
  carriageReturn hlast := notMem_line h row (c := '\r') (by decide) (by decide)
    row.tail_oneLine.2 (List.mem_of_getLast? hlast)

omit h in
theorem line_visible : (row.line hex).all isWhitespace = false := by
  rw [List.all_eq_false]
  refine ⟨':', ?_, by decide⟩
  simp [SocketRow.line, SocketRow.columns, padded]

/-- A table that the kernel prints is read row by row. -/
theorem loadTable_eq {heading : List Char} (hheading : Line heading) (rows : List (SocketRow α))
    (entries : Table ℕ TcpEntry) :
    loadTable (tableText heading (rows.map (SocketRow.line hex))) ipv6 entries =
      .ok (entries.putAll (rows.map fun row => (row.inode.toNat, entryOf display ipv6 row))) := by
  have hlines : ∀ line ∈ heading :: rows.map (SocketRow.line hex), Line line := by
    rw [List.forall_mem_cons]
    refine ⟨hheading, fun line hline => ?_⟩
    obtain ⟨row, -, rfl⟩ := List.mem_map.mp hline
    exact line_line h row
  have hkept : (rows.map (SocketRow.line hex)).filter (fun line => !line.all isWhitespace) =
      rows.map (SocketRow.line hex) := by
    rw [List.filter_eq_self]
    intro line hline
    obtain ⟨row, -, rfl⟩ := List.mem_map.mp hline
    rw [line_visible]
    rfl
  rw [loadTable, tableText, String.toList_ofList, linesOf_terminated hlines, List.drop_one,
    List.tail_cons, hkept, List.foldlM_map]
  clear hlines hkept
  induction rows generalizing entries with
  | nil => rfl
  | cons row rows ih =>
      rw [List.foldlM_cons, parseTcpLine_line h row]
      exact ih (entries.put row.inode.toNat (entryOf display ipv6 row))

end Row

/-- Every row of both tables, under its inode. -/
def KernelSocket.entry : KernelSocket → ℕ × TcpEntry
  | .inet row => (row.inode.toNat, entryOf Ipv4Addr.display false row)
  | .inet6 row => (row.inode.toNat, entryOf Ipv6Addr.display true row)

theorem loadTcpEntries_eq (tables : KernelTables) (files : ProcessFiles) :
    loadTcpEntries (procRootOf tables files) =
      .ok (Table.empty.putAll (tables.sockets.map KernelSocket.entry)) := by
  have hboth : (tables.sockets.map KernelSocket.entry) =
      (tables.tcp.map fun row => (row.inode.toNat, entryOf Ipv4Addr.display false row)) ++
        tables.tcp6.map fun row => (row.inode.toNat, entryOf Ipv6Addr.display true row) := by
    rw [KernelTables.sockets, List.map_append, List.map_map, List.map_map]
    rfl
  rw [hboth, Table.putAll, List.foldl_append]
  simp only [loadTcpEntries, procRootOf, required, bind, Except.bind]
  rw [loadTable_eq readable_hexIpv4 tables.heading_line]
  exact loadTable_eq readable_hexIpv6 tables.heading6_line tables.tcp6 _

/-! ## Descriptors -/

theorem parseI32_decimal {n : ℕ} (hn : n < 2 ^ 31) :
    parseI32 (String.ofList (decimal n)) = some (n : ℤ) := by
  have hword : n < 2 ^ 64 := hn.trans (by decide)
  have hplain : fromStrRadixBits 31 10 (decimal n) = some n := by
    rw [fromStrRadixBits, decimal, String.ofList_toList, fromStrRadix_repr hword,
      Option.filter_some, if_pos (by simpa using hn)]
  have hminus : ∀ rest, decimal n ≠ '-' :: rest := by
    intro rest hrest
    have hdigit : '-'.isDigit = true :=
      isDigit_of_mem_repr (n := n) (by rw [← decimal, hrest]; exact List.mem_cons_self)
    revert hdigit
    decide
  rw [parseI32, String.toList_ofList]
  split <;> rename_i heq
  · exact absurd heq (hminus _)
  · exact absurd heq (hminus _)
  · rw [hplain]
    rfl

theorem parseSocketInode_text (target : FileTarget) :
    parseSocketInode target.text = target.inode?.map UInt64.toNat := by
  cases target with
  | other target noSocket =>
      rw [FileTarget.text, parseSocketInode, noSocket]
      rfl
  | socket inode ne_zero =>
      have hprefix : stripPrefix "socket:[" (FileTarget.socket inode ne_zero).text =
          some (String.ofList (decimal inode.toNat ++ [']'])) := by
        have hchars : (FileTarget.socket inode ne_zero).text.toList =
            "socket:[".toList ++ (decimal inode.toNat ++ [']']) := by
          simp [FileTarget.text]
        have hstart : "socket:[".toList.isPrefixOf
            ("socket:[".toList ++ (decimal inode.toNat ++ [']'])) = true := by
          rw [List.isPrefixOf_iff_prefix]
          exact List.prefix_append ..
        rw [stripPrefix, hchars, if_pos hstart]
        rfl
      rw [parseSocketInode, hprefix]
      simp only [Option.bind_eq_bind, Option.bind_some, String.toList_ofList,
        List.getLast?_concat, if_true, List.dropLast_concat, fromStrRadix_decimal]
      rfl

/-- The sockets among the descriptors. -/
def ProcessFiles.inodes (files : ProcessFiles) : List (ℤ × ℕ) :=
  files.descriptors.filterMap fun d => d.2.inode?.map fun inode => ((d.1 : ℤ), inode.toNat)

theorem socketInodesForPid_eq (tables : KernelTables) (files : ProcessFiles) :
    socketInodesForPid (procRootOf tables files) = .ok (Table.empty.putAll files.inodes) := by
  have hloop : ∀ (descriptors : List (ℕ × FileTarget)) (sockets : Table ℤ ℕ),
      (∀ d ∈ descriptors, d.1 < 2 ^ 31) →
      (descriptors.map fun d => (String.ofList (decimal d.1), some d.2.text)).foldlM
        (fun sockets (name, link) =>
          match parseI32 name with
          | none => pure sockets
          | some fd => do
              let target ← required link ProcLookupError.io
              match parseSocketInode target with
              | none => pure sockets
              | some inode => pure (sockets.put fd inode)) sockets =
        .ok (sockets.putAll (descriptors.filterMap fun d =>
          d.2.inode?.map fun inode => ((d.1 : ℤ), inode.toNat))) := by
    intro descriptors
    induction descriptors with
    | nil => exact fun sockets _ => rfl
    | cons d descriptors ih =>
        intro sockets hsmall
        rw [List.forall_mem_cons] at hsmall
        rw [List.map_cons, List.foldlM_cons]
        simp only [parseI32_decimal hsmall.1, required, bind, Except.bind,
          parseSocketInode_text]
        cases htarget : d.2.inode? with
        | none =>
            rw [List.filterMap_cons_none (by rw [htarget]; rfl)]
            exact ih sockets hsmall.2
        | some inode =>
            rw [List.filterMap_cons_some (by rw [htarget]; rfl), Table.putAll_cons]
            exact ih (sockets.put d.1 inode.toNat) hsmall.2
  exact hloop files.descriptors .empty files.small

end Codexwatch.Client
