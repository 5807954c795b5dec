import RubyOlm.List
import RubyOlm.Buffers.List
import RubyOlm.Base64
import RubyOlm.Cipher
import RubyOlm.Theory.KeyAlgebra
import RubyOlm.Message.Layout
import RubyOlm.Buffers.Message
import RubyOlm.Message.Payload
import RubyOlm.Session.Malformed
import RubyOlm.Session.Matching
import RubyOlm.Uninitialised
import RubyOlm.InvalidBase64
import RubyOlm.DoubleRatchet.Commits
import RubyOlm.Account.KeyStore
import RubyOlm.Group.Inbound
import RubyOlm.Group.Export
import RubyOlm.Group.Room
import RubyOlm.Utility
import RubyOlm.Pk
import RubyOlm.Session.FailedLoad
import RubyOlm.Pickle.Prior
import RubyOlm.Erasure
import RubyOlm.Ruby.Arguments
import RubyOlm.Session.Establishment
import RubyOlm.DoubleRatchet.KeyUse
import RubyOlm.DoubleRatchet.Reorder
import RubyOlm.DoubleRatchet.Replay
import RubyOlm.DoubleRatchet.SkippedKeys
import RubyOlm.Session.OneTimeUse
import RubyOlm.Megolm.OneWay
import RubyOlm.Megolm.Cost
import RubyOlm.Buffers.Pk
import RubyOlm.Buffers.Padding
import RubyOlm.Buffers.KeyDerivation
import RubyOlm.Buffers.Ratchet
import RubyOlm.Buffers.Encryption
import RubyOlm.Buffers.Pickle
import RubyOlm.Buffers.Account
import RubyOlm.Buffers.Group
import RubyOlm.CryptoAlgorithms.Library
