import TypeBit.Basic
import TypeBit.Bencode.Grammar
import TypeBit.Bencode.Parser
import TypeBit.Bencode.RoundTrip
import TypeBit.Bencode.Skip
import TypeBit.Bencode.Spelling
import TypeBit.Bencode.Tokens
import TypeBit.Bencode.Value
import TypeBit.Bitfield
import TypeBit.Bitfield.Codec
import TypeBit.Bitfield.Scan
import TypeBit.Bitfield.Words
import TypeBit.Crypto.Fips180
import TypeBit.Crypto.Sha1
import TypeBit.Crypto.Streaming
import TypeBit.Dht.Announces
import TypeBit.Dht.Bootstrap
import TypeBit.Dht.Calls
import TypeBit.Dht.Datagram
import TypeBit.Dht.Displacing
import TypeBit.Dht.Freshness
import TypeBit.Dht.Krpc
import TypeBit.Dht.Matching
import TypeBit.Dht.Model
import TypeBit.Dht.Pacing
import TypeBit.Dht.RoundTrip
import TypeBit.Dht.Serving
import TypeBit.Dht.Store
import TypeBit.Dht.Table
import TypeBit.Dht.Waiting
import TypeBit.Dht.Witnesses
import TypeBit.DiskCache.Access
import TypeBit.DiskCache.Accounting
import TypeBit.DiskCache.CleanBound
import TypeBit.DiskCache.Coherence
import TypeBit.DiskCache.Flush
import TypeBit.DiskCache.Inflight
import TypeBit.DiskCache.Losses
import TypeBit.DiskCache.Model
import TypeBit.DiskCache.Pages
import TypeBit.DiskCache.WriteOnce
import TypeBit.Ed25519.Arith
import TypeBit.Ed25519.Encoding
import TypeBit.Ed25519.Field
import TypeBit.Ed25519.Group
import TypeBit.Ed25519.Scalar
import TypeBit.Engine.Closing
import TypeBit.Engine.Halting
import TypeBit.Engine.Holding
import TypeBit.Engine.Inbound
import TypeBit.Engine.Limits
import TypeBit.Engine.Links
import TypeBit.Engine.Release
import TypeBit.Engine.Slots
import TypeBit.Engine.State
import TypeBit.Engine.Upload
import TypeBit.Leech
import TypeBit.Leech.Reputation
import TypeBit.Lib.Edwards
import TypeBit.Lib.HashTree
import TypeBit.Lib.Leb128
import TypeBit.Lib.Limbs
import TypeBit.Lib.Maximal
import TypeBit.Lib.MerkleDamgard
import TypeBit.Lib.OrdMap
import TypeBit.Lib.Patch
import TypeBit.Lib.Pratt
import TypeBit.Lib.Radix
import TypeBit.Lib.Ranges
import TypeBit.Lib.Returns
import TypeBit.Lib.Tiling
import TypeBit.Lib.Window
import TypeBit.Lib.Workers
import TypeBit.Link.Base
import TypeBit.Link.Base32
import TypeBit.Link.Base58
import TypeBit.Link.Base64
import TypeBit.Link.Cid
import TypeBit.Link.Forms
import TypeBit.Link.InfoHash
import TypeBit.Link.Inverse
import TypeBit.Link.Ipv6
import TypeBit.Link.Magnet
import TypeBit.Link.Percent
import TypeBit.Link.Text
import TypeBit.Link.Utf8
import TypeBit.Metainfo.Accepted
import TypeBit.Metainfo.Binding
import TypeBit.Metainfo.Declared
import TypeBit.Metainfo.FromBytes
import TypeBit.Metainfo.InfoRaw
import TypeBit.Metainfo.Layout
import TypeBit.Metainfo.PieceRoot
import TypeBit.Metainfo.Spans
import TypeBit.Metainfo.Tiles
import TypeBit.Metainfo.Torrent
import TypeBit.Metainfo.Verifiable
import TypeBit.Network.Anonymity
import TypeBit.Network.Lsd
import TypeBit.Network.Model
import TypeBit.Picker
import TypeBit.Picker.Numbering
import TypeBit.Picker.Order
import TypeBit.Picker.Streaming
import TypeBit.Piece.Bytes
import TypeBit.Piece.Intervals
import TypeBit.Piece.Packed
import TypeBit.Piece.Snapshot
import TypeBit.Piece.Tracker
import TypeBit.Platform
import TypeBit.PortMap.Replies
import TypeBit.RateLimit
import TypeBit.RateLimit.Cadence
import TypeBit.RateLimit.Ceiling
import TypeBit.Receipts.Book
import TypeBit.Receipts.Signed
import TypeBit.Scheduler
import TypeBit.Session.Agreement
import TypeBit.Session.Assemble
import TypeBit.Session.Balance
import TypeBit.Session.Budget
import TypeBit.Session.ByteExact
import TypeBit.Session.Calm
import TypeBit.Session.Completion
import TypeBit.Session.Control
import TypeBit.Session.Counting
import TypeBit.Session.Disk
import TypeBit.Session.Dispatch
import TypeBit.Session.Encounters
import TypeBit.Session.Endgame
import TypeBit.Session.Fetches
import TypeBit.Session.Fitting
import TypeBit.Session.Frame
import TypeBit.Session.Gathered
import TypeBit.Session.Hearing
import TypeBit.Session.Honest
import TypeBit.Session.Ledger
import TypeBit.Session.Metadata
import TypeBit.Session.Mirrors
import TypeBit.Session.Moves
import TypeBit.Session.Outstanding
import TypeBit.Session.Peers
import TypeBit.Session.Pipeline
import TypeBit.Session.Redownload
import TypeBit.Session.Refusals
import TypeBit.Session.Requests
import TypeBit.Session.Resuming
import TypeBit.Session.Run
import TypeBit.Session.Selection
import TypeBit.Session.Side
import TypeBit.Session.Sound
import TypeBit.Session.Standing
import TypeBit.Session.State
import TypeBit.Session.Steps
import TypeBit.Session.Tick
import TypeBit.Session.Verify
import TypeBit.Session.Wanted
import TypeBit.Session.WebPieces
import TypeBit.Session.WebSeed
import TypeBit.Socks.Budget
import TypeBit.Socks.HandOver
import TypeBit.Socks.Line
import TypeBit.Socks.Responses
import TypeBit.Swarm
import TypeBit.Trackers.Announce
import TypeBit.Trackers.Isolation
import TypeBit.Trackers.Left
import TypeBit.Unchoke
import TypeBit.Utp.Acking
import TypeBit.Utp.Contiguity
import TypeBit.Utp.Delivery
import TypeBit.Utp.EndOfStream
import TypeBit.Utp.Flushing
import TypeBit.Utp.Frame
import TypeBit.Utp.Framing
import TypeBit.Utp.Isolation
import TypeBit.Utp.Lifecycle
import TypeBit.Utp.Manager
import TypeBit.Utp.Opening
import TypeBit.Utp.Sender
import TypeBit.Utp.Smoothing
import TypeBit.Utp.Socket
import TypeBit.Utp.Windows
import TypeBit.Wire.Extended
import TypeBit.Wire.Fields
import TypeBit.Wire.Message
import TypeBit.Wire.Payloads
import TypeBit.Wire.Pex
import TypeBit.Wire.Stream
