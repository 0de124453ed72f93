import Stm32Logger.Boot
import Stm32Logger.CsvLine
import Stm32Logger.Fat.SdStore
import Stm32Logger.Fat.Mount
import Stm32Logger.Fat.CardFaults
import Stm32Logger.Fat.SplitCalls
import Stm32Logger.Sd.Ends
import Stm32Logger.Sd.Session
import Stm32Logger.Sd.Service
import Stm32Logger.Fat.Buffers
import Stm32Logger.Fat.FailedCreate
import Stm32Logger.Fat.Limit
import Stm32Logger.Sd.Partition
import Stm32Logger.Fat.Scan
import Stm32Logger.Fat.Search
import Stm32Logger.Fat.Logs
import Stm32Logger.Fat.OwnDir
