import Ssix.CryptoNote.Types
import Ssix.CryptoNote.Money
import Ssix.CryptoNote.Offsets
import Ssix.Serialization.BinarySerializer
import Ssix.CryptoNote.DBUtils
import Ssix.CryptoNote.Primitives
import Ssix.CryptoNote.Construct
import Ssix.CryptoNote.ConstructSpec
import Ssix.CryptoNote.Lookup
import Ssix.CryptoNote.Validation
import Ssix.CryptoNote.MessageQueue
import Ssix.CryptoNote.Amounts
import Ssix.CryptoNote.WalletProofs
